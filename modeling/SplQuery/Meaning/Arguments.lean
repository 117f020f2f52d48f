import SplQuery.Meaning.Basic

/-!
# What free arguments mean

Commands whose arguments follow no rule of their own sort them into options, values, fields to
group by and nested queries. A loose `as` between two values gives the first one the second as
another name.
-/

namespace SplQuery

/-- A value among the arguments. -/
structure Positional where
  value : String
  newName : Option String
  span : Span
  deriving DecidableEq, Repr

/-- The arguments of a command, sorted. -/
structure Arguments where
  options : Options
  /-- the values in order -/
  positionals : List Positional
  byFields : List FieldRef
  overField : Option FieldRef
  queries : List Pipeline

namespace Arguments

/-- No arguments. -/
def empty : Arguments := ⟨.empty, [], [], none, []⟩

/-- Adds a value. -/
def addPositional (a : Arguments) (p : Positional) : Arguments :=
  { a with positionals := a.positionals ++ [p] }

/-- Gives the last value another name. -/
def nameLast (a : Arguments) (name : String) : Arguments :=
  match a.positionals.getLast? with
  | none => a
  | some last =>
    { a with positionals := a.positionals.dropLast ++ [{ last with newName := some name }] }

/-- The values that are read so far, and whether the next one names the last. -/
structure Progress where
  arguments : Arguments
  /-- a loose `as` has been read -/
  naming : Bool

/-- Reads a value that stands by itself. -/
def Progress.addValue (p : Progress) (tree : Placed) : Progress :=
  let value := tree.value
  let a := p.arguments
  if p.naming && !a.positionals.isEmpty then ⟨a.nameLast value, false⟩
  else if Text.sameName value "as" && !a.positionals.isEmpty then ⟨a, true⟩
  else ⟨a.addPositional ⟨value, none, tree.core⟩, false⟩

/-- Reads a value with another name after `as`. -/
def addAliased (a : Arguments) (tree : Placed) : Arguments :=
  match tree.childNodes with
  | [] => a
  | target :: rest => a.addPositional ⟨target.value, rest.head?.map (·.value), target.core⟩

/-- Reads one of the arguments. -/
def Progress.add (p : Progress) (part : Part) : Progress :=
  let tree := part.tree
  let a := p.arguments
  match tree.shape? with
  | some .optionArg =>
    { p with arguments := tree.option?.elim a fun (name, value) =>
        { a with options := a.options.insert name value } }
  | some .argument => p.addValue tree
  | some .aliasedField => { p with arguments := a.addAliased tree }
  | some .byClause =>
    { p with arguments :=
        { a with byFields := a.byFields ++ tree.clauseItems.map (·.fieldRef) } }
  | some .overClause =>
    { p with arguments := { a with overField := (tree.node? .fieldItem).map (·.fieldRef) } }
  | some .subsearch =>
    { p with arguments := { a with queries := a.queries ++ part.pipeline?.toList } }
  | _ => p

/-- The arguments among the parts of a command. -/
def ofParts (parts : List Part) : Arguments :=
  (parts.foldl Progress.add ⟨empty, false⟩).arguments

/-! ## Looking things up -/

/-- The values. -/
def values (a : Arguments) : List String := a.positionals.map (·.value)

/-- The value at a position. -/
def value? (a : Arguments) (n : Nat) : Option String := a.values[n]?

/-- The first other name that is given. -/
def newName? (a : Arguments) : Option String := a.positionals.findSome? (·.newName)

/-- The values as fields. -/
def fields (a : Arguments) : List FieldRef := a.positionals.map fun p => ⟨p.value, p.span⟩

/-- The values as fields with other names. -/
def renamedFields (a : Arguments) : List RenamedField :=
  a.positionals.map fun p => ⟨p.value, p.newName⟩

/-- The values with `as` and their other names among them, then the fields to group by. -/
def flat (a : Arguments) : List String :=
  a.positionals.flatMap (fun p => p.value :: p.newName.elim [] fun name => ["as", name]) ++
    a.byFields.map (·.name)

end Arguments

end SplQuery
