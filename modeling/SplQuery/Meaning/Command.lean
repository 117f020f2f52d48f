import SplQuery.Meaning.Arguments

/-!
# What commands mean

Each command finds what it needs among its children. Where something is missing it is left out, or
its default stands for it. A command with free arguments looks for what it needs among all of them,
and a command that is not known keeps its arguments as they are.
-/

namespace SplQuery.Meaning

/-! ## Commands that select -/

/-- `search terms`. -/
def searchCommand (node : Placed) (parts : List Part) : Command :=
  .search (((part? .searchExpr parts).bind (·.search?)).getD (.mk [] node.core))

/-- `where expression`. -/
def whereCommand (parts : List Part) : SimpleCommand := .whereCommand (firstExpression? parts)

/-- `fields [+|-] field, ...`. -/
def fieldsCommand (node : Placed) : SimpleCommand :=
  .fields (if (node.lexemeOf? .minus).isSome then .remove else .keep) node.listedFields

/-- Whether something to sort by has a minus sign. -/
def isDescending (node : Placed) : Bool := node.firstLexeme?.any (·.kind == .minus)

/-- Something to sort by. -/
def sortKey? (node : Placed) : Option SortKey := do
  let call := node.node? .fieldCall
  let field ← call.elim ((node.node? .fieldItem).map (·.value)) (·.calledField?)
  return {
    field := field
    function := call.bind (·.calledName?)
    descending := isDescending node
    span := node.core }

/-- What a command sorts by. -/
def sortKeys (node : Placed) : List SortKey := (node.nodesOf .sortField).filterMap sortKey?

/-- `dedup [number] field, ... [options] [sortby field ...]`. -/
def dedupCommand (node : Placed) : SimpleCommand :=
  .dedup node.leadingCount? node.listedFields (sortKeys node) node.options

/-- Whether a key is no key but the word that turns the order around. -/
def turnsOrder (k : SortKey) : Bool :=
  k.function.isNone && !k.descending && ["d", "desc"].contains k.field.toLower

/-- `sort [number] [+|-]field ... [desc]`. -/
def sortCommand (node : Placed) : SimpleCommand :=
  let keys := sortKeys node
  let reversed := keys.length > 1 && keys.getLast?.any turnsOrder
  .sort node.leadingCount? (if reversed then keys.dropLast else keys) reversed

/-- Whether a node is a number by itself, which stands for a limit. -/
def isBareNumber (node : Placed) : Bool :=
  node.isNode .literal && node.firstLexeme?.any (·.kind == .numberLiteral)

/-- `head [number] [options] [expression]`. -/
def headCommand (node : Placed) (parts : List Part) : SimpleCommand :=
  let options := node.options
  let condition := (expressionParts parts).find? fun p => !isBareNumber p.tree
  .head (node.leadingCount?.or (options.count? "limit")) (condition.bind (·.expression?)) options

/-- A field and its new name. -/
def renaming? (pair : Placed) : Option Renaming :=
  match pair.nodesOf .fieldItem with
  | old :: new :: _ => some ⟨old.value, new.value, pair.core⟩
  | _ => none

/-- `rename old as new, ...`. -/
def renameCommand (node : Placed) : SimpleCommand :=
  .rename ((node.nodesOf .renamePair).filterMap renaming?)

/-! ## Commands that compute -/

/-- The assignments among the parts. -/
def assignments (parts : List Part) : List Assignment := parts.filterMap (·.assignment?)

/-- `fn(field) as name`. -/
def conversion? (call : Placed) : Option Conversion := do
  return ⟨← call.calledName?, ← call.calledField?, call.callAlias?, call.core⟩

/-- `convert [timeformat=text] fn(field) [as name] ...`. -/
def convertCommand (node : Placed) : SimpleCommand :=
  .convert (node.options.get? "timeformat") ((node.nodesOf .fieldCall).filterMap conversion?)

/-- `old with new`. -/
def replacement? (pair : Placed) : Option Replacement :=
  match pair.nodesOf .argument with
  | [] => none
  | old :: rest => some ⟨old.value, rest.head?.elim "" (·.value)⟩

/-- `replace old with new, ... [in field, ...]`. -/
def replaceCommand (node : Placed) : SimpleCommand :=
  .replace ((node.nodesOf .replacePair).filterMap replacement?) (node.listed.map (·.value))

/-- What a text is put together from: a field or a text in quotes. -/
def source? (node : Placed) : Option Expression :=
  if node.isNode .fieldItem then some (.field node.fieldRef)
  else if node.isNode .literal then some (.string node.value node.core)
  else none

/-- `strcat [options] source ... target`. -/
def strcatCommand (node : Placed) : SimpleCommand :=
  let sources := node.children.filterMap source?
  let allRequired := node.options.flag "allrequired" false
  match sources.getLast?.bind (·.field?) with
  | some target =>
    .strcat sources.dropLast (if target.name.isEmpty then none else some target.name) allRequired
  | none => .strcat sources none allRequired

/-- `fn(field) as name`, where the name of the function ends in a number. -/
def trend? (call : Placed) : Option Trend := do
  return ⟨← call.calledName?, ← call.calledField?, call.callAlias?⟩

/-- `trendline fn(field) [as name] ...`. -/
def trendlineCommand (node : Placed) : SimpleCommand :=
  .trendline ((node.nodesOf .fieldCall).filterMap trend?)

/-! ## Commands that aggregate -/

/-- `[options] aggregation, ... [over field] [by field, ...]`. -/
def statsCommand (node : Placed) (parts : List Part) : SimpleCommand :=
  .stats (node.commandWord?.elim .stats .ofWord) (aggregations parts) node.byFields
    (((node.node? .overClause).bind (·.node? .fieldItem)).map (·.fieldRef)) node.options

/-- What a `from` clause names, as an option or by itself. -/
def source (clause : Placed) : Option String :=
  match clause.node? .optionArg with
  | some option => (option.node? .optionValue).map (·.value)
  | none => clause.firstArgument?

/-- `tstats [options] aggregation ... [from source] [where search] [by field, ...]`. -/
def tstatsCommand (node : Placed) (parts : List Part) : Command :=
  .tstats (aggregations parts) ((node.node? .fromClause).bind source) (condition? parts)
    node.byFields node.options

/-- `[number] [options] field, ... [by field, ...]`. -/
def topCommand (node : Placed) : SimpleCommand :=
  let options := node.options
  .top (if node.commandWord? = some .rare then .rare else .top)
    (node.leadingCount?.or (options.count? "limit")) node.listedFields node.byFields options

/-- `fit algorithm [options] field ... [from field ...] [into model] [as name]`. Without `from`
every listed field is a feature. -/
def fitCommand (node : Placed) : SimpleCommand :=
  let names := node.listed.map Placed.value
  let (target, features) := match node.node? .fromClause with
    | some clause => (names.head?, clause.clauseItems.map Placed.value)
    | none => (none, names)
  .fit ((node.node? .argument).map Placed.text) target features
    ((node.node? .intoClause).bind (·.firstArgument?)) ((node.node? .fieldItem).map Placed.value)
    node.options

/-! ## Commands that extract and look up -/

/-- The field that holds an event as it came in. -/
def rawField : String := "_raw"

/-- The quoted text directly under a command. -/
def quotedText? (node : Placed) : Option String :=
  (node.lexemeOf? .stringLiteral).map fun l => Text.unquote l.text

/-- `rex [options] "pattern"`. -/
def rexCommand (node : Placed) : SimpleCommand :=
  let options := node.options
  .rex ((options.get? "field").getD rawField) ((quotedText? node).getD "") (options.get? "mode")
    (options.count? "max_match")

/-- `regex [field=|field!=] "pattern"`. -/
def regexCommand (node : Placed) : SimpleCommand :=
  let negated := (node.lexemeOf? .notEquals).isSome
  let hasField := negated || (node.lexemeOf? .equals).isSome
  let field := if hasField then node.lexemes[1]?.map (·.text) else none
  .regex (field.getD rawField) negated
    ((quotedText? node).getD ((node.node? .argument).elim "" (·.text)))

/-- `output` or `outputnew`. -/
def outputMode (clause : Placed) : Option LookupMode :=
  clause.firstLexeme?.map fun l =>
    if l.kind = .clause .outputnew then .outputnew else .output

/-- `lookup [options] table field [as name], ... [output|outputnew field [as name], ...]`. -/
def lookupCommand (node : Placed) : SimpleCommand :=
  let output := node.node? .outputClause
  .lookup node.firstArgument? ((node.nodesOf .fieldList).flatMap (·.renamedFields))
    (output.bind outputMode) ((output.bind (·.node? .fieldList)).elim [] (·.renamedFields))
    node.options

/-- `inputlookup [options] table [where search]`. -/
def inputlookupCommand (node : Placed) (parts : List Part) : Command :=
  .inputlookup node.firstArgument? (condition? parts) node.options

/-! ## Commands around nested queries -/

/-- `foreach [options] field ... [ query ]`. -/
def foreachCommand (node : Placed) (parts : List Part) : Command :=
  .foreach node.listedFields node.options ((part? .subsearch parts).bind (·.pipeline?))

/-- A field, or `name=field`. -/
def returned? (node : Placed) : Option RenamedField :=
  if node.isNode .fieldItem then some ⟨node.value, none⟩
  else if node.isNode .optionArg then
    (node.node? .optionValue).map fun v => ⟨v.text, node.firstLexeme?.map (·.text)⟩
  else none

/-- `return [number] (field | name=field) ...`. -/
def returnCommand (node : Placed) : SimpleCommand :=
  .returnCommand node.leadingCount? (node.children.filterMap returned?)

/-! ## Commands with free arguments -/

/-- The earlier values meant by `p=2` or `p=1-3`; the one before if that is no number or range. -/
def lags (text : String) : List Nat :=
  let number? (cs : List Char) : Option Nat := Text.readSmall? (String.ofList (Text.trimChars cs))
  let cs := text.toList
  let first := cs.takeWhile (· ≠ '-')
  match cs.dropWhile (· ≠ '-') with
  | [] => (number? first).elim [1] ([·])
  | _ :: rest =>
    match number? first, number? rest with
    | some low, some high =>
      if low ≤ high then (List.range (high + 1 - low)).map (low + ·) else [1]
    | _, _ => [1]

/-- A command of one field. -/
def autoregressCommand (a : Arguments) : SimpleCommand :=
  .autoregress ((a.value? 0).getD "") a.newName? ((a.options.get? "p").elim [1] lags)

/-- `addtotals [options] field ...`. -/
def addtotalsCommand (a : Arguments) : SimpleCommand :=
  .addtotals a.values (a.options.flag "row" true) (a.options.flag "col" false)
    ((a.options.get? "fieldname").getD "Total") a.options

/-- `rangemap field=name range=low-high ... default=name`. -/
def rangemapCommand (a : Arguments) : SimpleCommand :=
  .rangemap (a.options.get? "field")
    (a.options.filter fun name => name != "field" && name != "default") (a.options.get? "default")

/-- A command without nested queries, by the word that begins it. -/
def simple? (word : CommandWord) (a : Arguments) : Option SimpleCommand :=
  let option (name : String) : Option String := a.options.get? name
  match word with
  | .outputlookup => some (.outputlookup (a.value? 0) a.options)
  | .tail => some (.tail ((a.value? 0).bind Text.readCount?))
  | .reverse => some .reverse
  | .uniq => some .uniq
  | .bin =>
    some (.bin (a.value? 0) a.newName? (option "span") (a.options.count? "bins") a.options)
  | .fillnull => some (.fillnull (option "value") a.values)
  | .filldown => some (.filldown a.values)
  | .transaction => some (.transaction a.values a.options)
  | .spath => some (.spath (option "input") (option "output") ((option "path").or (a.value? 0)))
  | .makemv =>
    some (.makemv (a.value? 0) (option "delim") (option "tokenizer") a.options)
  | .mvexpand => some (.mvexpand (a.value? 0) (a.options.count? "limit"))
  | .mvcombine => some (.mvcombine (a.value? 0) (option "delim"))
  | .nomv => some (.nomv (a.value? 0))
  | .makeresults =>
    some (.makeresults (a.options.count? "count") (a.options.flag "annotate" false) a.options)
  | .addinfo => some .addinfo
  | .gentimes => some (.gentimes a.options)
  | .accum => some (.accum ((a.value? 0).getD "") a.newName?)
  | .delta =>
    some (.delta ((a.value? 0).getD "") a.newName? ((option "p").bind Text.readSmall?))
  | .autoregress => some (autoregressCommand a)
  | .addtotals => some (addtotalsCommand a)
  | .rangemap => some (rangemapCommand a)
  | .xyseries => some (.xyseries (a.value? 0) (a.value? 1) (a.values.drop 2) a.options)
  | .untable => some (.untable (a.value? 0) (a.value? 1) (a.value? 2))
  | .transpose => some (.transpose ((a.value? 0).bind Text.readCount?) a.options)
  | .iplocation =>
    some (.iplocation (a.value? 0) (option "prefix") (a.options.flag "allfields" false))
  | .extract => some (.extract a.options)
  | .predict => some (.predict a.renamedFields a.options)
  | .fieldsummary => some (.fieldsummary a.values a.options)
  | .rest => some (.rest (a.value? 0) a.options)
  | .metadata => some (.metadata (option "type") a.options)
  | .datamodel => some (.datamodel (a.value? 0) (a.value? 1) (a.value? 2))
  | .loadjob => some (.loadjob ((option "savedsearch").or (a.value? 0)) a.options)
  | .savedsearch => some (.savedsearch (a.value? 0) a.options)
  | .collect => some (.collect (option "index") a.options)
  | .apply => some (.apply (a.value? 0) a.newName? a.options)
  | _ => none

/-- A command around nested queries, by the word that begins it. -/
def nested? (word : CommandWord) (a : Arguments) : Option Command :=
  match word with
  | .join => some (.join (a.options.get? "type") a.fields a.options a.queries.head?)
  | .append => some (.append .append a.options a.queries.head?)
  | .appendcols => some (.append .appendcols a.options a.queries.head?)
  | .appendpipe => some (.append .appendpipe a.options a.queries.head?)
  | .union => some (.union a.values a.options a.queries)
  | .multisearch => some (.multisearch a.queries)
  | .map => some (.map ((a.options.get? "search").or (a.value? 0)) a.options a.queries.head?)
  | _ => none

/-- A command that is not known. -/
def genericCommand (node : Placed) (a : Arguments) : Command :=
  .generic (node.firstLexeme?.elim "" (·.text.toLower)) a.options a.flat a.queries

/-- A command with free arguments. -/
def freeCommand (node : Placed) (parts : List Part) : Command :=
  let a := Arguments.ofParts parts
  let known := node.commandWord?.bind fun word =>
    ((simple? word a).map .simple).or (nested? word a)
  known.getD (genericCommand node a)

end SplQuery.Meaning
