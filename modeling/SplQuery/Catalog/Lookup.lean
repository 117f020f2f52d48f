import SplQuery.Catalog.Commands
import SplQuery.Catalog.Functions
import SplQuery.Text.Characters

/-!
# Looking up commands and functions

Names are found without regard to case; a command is also found by an alias. A percentile written
with its rank (`p95`, `exactperc99.9`) is found as the function that it abbreviates.
-/

namespace SplQuery.Catalog

open Text

/-- The first command that has the name, or an alias of that name. -/
def commandInfo? (name : String) : Option CommandInfo :=
  commands.find? fun c => sameName c.name name || c.aliases.any (sameName · name)

/-- The spellings that a percentile's rank may follow, each with the function it stands for. -/
def percentiles : List (String × String) :=
  [("exactperc", "exactperc"), ("upperperc", "upperperc"), ("perc", "perc"), ("p", "perc")]

/-- The percentile function that a name with a rank stands for. -/
def percentileBase? (name : String) : Option String :=
  percentiles.findSome? fun (spelling, base) =>
    let chars := name.toLower.toList
    if spelling.toList.isPrefixOf chars then
      let rank := chars.drop spelling.length
      if !rank.isEmpty && rank.all (fun c => c.isDigit || c == '.') then some base else none
    else none

/-- The first function that has exactly the name, up to case. -/
def functionNamed? (name : String) : Option FunctionInfo :=
  functions.find? fun f => sameName f.name name

/-- The function of that name, or the one that a percentile with a rank stands for. -/
def functionInfo? (name : String) : Option FunctionInfo :=
  functionNamed? name <|> (percentileBase? name).bind functionNamed?

/-- Whether the command removes fields; an unknown command does not. -/
def dropsFields (name : String) : Bool := (commandInfo? name).any (·.effects.drops)

/-- The names of the commands that can add fields, in table order. -/
def fieldCreators : List String := (commands.filter (·.effects.creates)).map (·.name)

/-- The commands of a category, in table order. -/
def commandsIn (category : CommandCategory) : List CommandInfo :=
  commands.filter (·.category == category)

/-- The functions of a category, in table order. -/
def functionsIn (category : FunctionCategory) : List FunctionInfo :=
  functions.filter (·.category == category)

end SplQuery.Catalog
