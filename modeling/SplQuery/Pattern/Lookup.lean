import SplQuery.Pattern.Match
import SplQuery.Pattern.Registry

/-!
# Looking up a command's pattern
-/

namespace SplQuery.CommandSyntax

/-- The first entry that has a name, or an alias of that name, in any case. -/
def find? (name : String) : Option CommandSyntax := Registry.commands.find? (·.hasName name)

/-- The arguments of a command in one line, for people. -/
def usage? (name : String) : Option String := (find? name).map (·.usage)

end SplQuery.CommandSyntax
