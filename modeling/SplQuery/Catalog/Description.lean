import SplQuery.Catalog.Basic

/-!
# Descriptions of commands and functions

What is known about a command or a function, in a few lines for people. The first line names it,
the others are indented.
-/

namespace SplQuery.Catalog

/-- The lines of a description, each ended by a line feed, all but the first one indented. -/
def describeLines : List String → String
  | [] => ""
  | first :: rest => first ++ "\n" ++ String.join (rest.map fun l => "  " ++ l ++ "\n")

/-- The words that are chosen. -/
def chosen (words : List (Bool × String)) : List String := (words.filter (·.1)).map (·.2)

/-- Several words with commas between them. -/
def listed (words : List String) : String := ", ".intercalate words

/-- Several words behind a heading, if there are any. -/
def headed (heading : String) (words : List String) : List String :=
  if words.isEmpty then [] else [heading ++ ": " ++ listed words]

/-- What happens to fields. -/
def FieldEffects.describe (e : FieldEffects) : String :=
  let named := chosen [(e.creates, "creates"), (e.modifies, "modifies"), (e.drops, "drops")]
  (if named.isEmpty then "none" else listed named) ++ " (other fields " ++
    (if e.preservesOthers then "kept" else "dropped") ++ ")"

/-- A command, with its arguments in one line if they are known. -/
def CommandInfo.describe (c : CommandInfo) (usage : Option String) : String :=
  let traits := chosen [(c.generating, "generating"), (c.streaming, "streaming")]
  describeLines (
    [c.name ++ " (command)"] ++ headed "aliases" c.aliases ++
    ["category: " ++ c.category.slug, c.description] ++
    usage.toList.map ("usage: " ++ ·) ++
    ["fields: " ++ c.effects.describe] ++ headed "implicit fields" c.implicitFields ++
    ["risk: " ++ c.risk.camelName ++ c.riskNote.elim "" fun note => " (" ++ note ++ ")"] ++
    if traits.isEmpty then [] else [listed traits])

/-- A parameter as it stands in a signature. -/
def FunctionParam.describe (p : FunctionParam) : String :=
  let name := if p.variadic then p.name ++ "..." else p.name
  if p.optional then "[" ++ name ++ "]" else name

/-- A function. -/
def FunctionInfo.describe (f : FunctionInfo) : String :=
  let contexts := chosen [(f.context.allowsEval, "eval"), (f.context.allowsStats, "stats")]
  describeLines [
    f.name ++ " (function)", "category: " ++ f.category.slug, f.description,
    "signature: " ++ f.name ++ "(" ++ listed (f.params.map (·.describe)) ++ ") -> " ++
      f.returnType.camelName,
    "usable in: " ++ listed contexts]

end SplQuery.Catalog
