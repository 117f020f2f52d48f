import SplQuery.Query.Pipeline
import SplQuery.Record.Basic
import SplQuery.Regex.GroupNames

/-!
# Queries as records

Every part of a query under its name, together with what follows from it: the fields that an
expression or a search reads, those that a command creates, and the lines and columns where the
part stands.
-/

namespace SplQuery

/-- The record of a stretch of the text. -/
abbrev Places := Span → Record

namespace Places

/-- The records of the stretches of a text. -/
def ofText (text : List Char) : Places :=
  let index := LineIndex.ofText text
  fun s => .location (index.location s)

end Places

open Record (optional optionalText optionalCount listOf texts plain tagged)

/-! ## Expressions -/

namespace FieldRef

/-- What is said of a field. -/
def members (place : Places) (f : FieldRef) : List (String × Record) := [
  ("field_name", .text f.name), ("is_wildcard", .flag f.isPattern), ("location", place f.span)]

/-- A field in a list of fields. -/
def record (place : Places) (f : FieldRef) : Record := plain "FieldReference" (f.members place)

/-- Fields in a list. -/
def records (place : Places) : List FieldRef → Record := listOf (record place)

end FieldRef

namespace Expression

/-- One of the sorts of expressions. -/
def sort (type : String) (members : List (String × Record)) : Record :=
  .variant type (tagged type members)

mutual

/-- An expression as a record. -/
def record (place : Places) : Expression → Record
  | .binary operator left right span => sort "BinaryExpression" [
    ("operator", .text operator), ("left", left.record place), ("right", right.record place),
    ("location", place span)]
  | .unary operator operand span => sort "UnaryExpression" [
    ("operator", .text operator), ("operand", operand.record place), ("location", place span)]
  | .call function arguments span => sort "FunctionCall" [
    ("function_name", .text function), ("arguments", .list (recordsOfAll place arguments)),
    ("location", place span)]
  | .field ref => sort "FieldReference" (ref.members place)
  | .string value span => sort "StringLiteral" [
    ("value", .text value), ("location", place span)]
  | .number digits span => sort "NumberLiteral" [
    ("value", .number (Binary64.nearest (.read digits))), ("raw", .text digits),
    ("location", place span)]
  | .boolean value span => sort "BooleanLiteral" [
    ("value", .flag value), ("location", place span)]
  | .time value span => sort "TimeLiteral" [
    ("value", .text value), ("location", place span)]

/-- Expressions as records. -/
def recordsOfAll (place : Places) : List Expression → List Record
  | [] => []
  | e :: es => e.record place :: recordsOfAll place es

end

end Expression

/-! ## Parts of commands -/

/-- Options as a record. -/
def Options.record (o : Options) : Record := .table o.entries

/-- A field with its other name as a record of a type. -/
def RenamedField.record (type : String) (f : RenamedField) : Record := plain type [
  ("field", .text f.field), ("alias", optionalText f.newName)]

/-- An assignment as a record. -/
def Assignment.record (place : Places) (a : Assignment) : Record := plain "EvalAssignment" [
  ("target_field", .text a.target), ("expression", a.expression.record place),
  ("depends_on", texts a.expression.fields), ("location", place a.span)]

/-- An aggregation as a record. -/
def Aggregation.record (place : Places) (a : Aggregation) : Record := plain "Aggregation" [
  ("function", .text a.function), ("arguments", listOf (·.record place) a.arguments),
  ("field", optionalText a.field?), ("alias", optionalText a.newName),
  ("output_field", .text a.output), ("location", place a.span)]

/-- A sort key as a record. -/
def SortKey.record (place : Places) (k : SortKey) : Record := plain "SortKey" [
  ("field", .text k.field), ("function", optionalText k.function),
  ("descending", .flag k.descending), ("location", place k.span)]

/-- A conversion as a record. -/
def Conversion.record (place : Places) (c : Conversion) : Record := plain "FieldConversion" [
  ("function", .text c.function), ("field", .text c.field), ("alias", optionalText c.newName),
  ("location", place c.span)]

/-- A replacement as a record. -/
def Replacement.record (r : Replacement) : Record := plain "Replacement" [
  ("from", .text r.old), ("to", .text r.new)]

/-- A renaming as a record. -/
def Renaming.record (place : Places) (r : Renaming) : Record := plain "FieldRenaming" [
  ("old_name", .text r.old), ("new_name", .text r.new), ("location", place r.span)]

/-- A moving average as a record. -/
def Trend.record (t : Trend) : Record := plain "Trend" [
  ("function", .text t.function), ("period", optionalCount (Text.readSmall? t.periodText)),
  ("field", .text t.field), ("alias", optionalText t.newName), ("output_field", .text t.output)]

/-! ## Commands -/

namespace SimpleCommand

/-- The name of the command as the name of a case: the same for all commands of the `stats` family,
and for `top` and `rare`. -/
def caseName : SimpleCommand → String
  | .stats .. => "Stats"
  | .top .. => "Top"
  | c => c.name.capitalize

/-- The arguments of a command as members, and the fields that it creates. -/
def members (place : Places) (command : SimpleCommand) : List (String × Record) :=
  let created : String × Record := ("created_fields", texts command.createdFields)
  match command with
  | .eval list | .fieldformat list => [("assignments", listOf (·.record place) list)]
  | .convert timeformat list => [
    ("timeformat", optionalText timeformat), ("conversions", listOf (·.record place) list)]
  | .replace list names => [
    ("replacements", listOf Replacement.record list), ("fields", texts names)]
  | .strcat sources target allRequired => [
    ("sources", listOf (·.record place) sources), ("target_field", .text (target.getD "")),
    ("allrequired", .flag allRequired), created]
  | .trendline trends => [("trends", listOf Trend.record trends), created]
  | .accum field newName => [("field", .text field), ("alias", optionalText newName)]
  | .delta field newName period => [
    ("field", .text field), ("alias", optionalText newName), ("period", optionalCount period),
    created]
  | .autoregress field newName lags => [
    ("field", .text field), ("alias", optionalText newName), ("lags", listOf .count lags), created]
  | .addtotals names row col fieldname options => [
    ("fields", texts names), ("row", .flag row), ("col", .flag col),
    ("fieldname", .text fieldname), ("options", options.record), created]
  | .rangemap field ranges default => [
    ("field", optionalText field), ("ranges", ranges.record), ("default", optionalText default),
    created]
  | .iplocation field leading allFields => [
    ("field", optionalText field), ("prefix", optionalText leading),
    ("allfields", .flag allFields), created]
  | .makeresults count annotate options => [
    ("count", optionalCount count), ("annotate", .flag annotate), ("options", options.record),
    created]
  | .addinfo => [created]
  | .gentimes options => [("options", options.record), created]
  | .fillnull value names => [("value", optionalText value), ("fields", texts names)]
  | .filldown names => [("fields", texts names)]
  | .bin field newName width bins options => [
    ("field", optionalText field), ("alias", optionalText newName), ("span", optionalText width),
    ("bins", optionalCount bins), ("options", options.record)]
  | .whereCommand condition => [
    ("condition", optional (·.record place) condition),
    ("referenced_fields", texts (condition.elim [] (·.fields)))]
  | .table refs => [("fields", FieldRef.records place refs)]
  | .fields mode refs => [
    ("mode", .choice (match mode with | .keep => "Keep" | .remove => "Remove")),
    ("fields", FieldRef.records place refs)]
  | .dedup count refs sortBy options => [
    ("count", optionalCount count), ("fields", FieldRef.records place refs),
    ("sort_by", listOf (·.record place) sortBy), ("options", options.record)]
  | .sort limit keys reversed => [
    ("limit", optionalCount limit), ("keys", listOf (·.record place) keys),
    ("reversed", .flag reversed)]
  | .head limit condition options => [
    ("limit", optionalCount limit), ("condition", optional (·.record place) condition),
    ("options", options.record)]
  | .tail limit => [("limit", optionalCount limit)]
  | .reverse | .uniq => []
  | .rename list => [("renamings", listOf (·.record place) list)]
  | .nomv field => [("field", optionalText field)]
  | .makemv field delim tokenizer options => [
    ("field", optionalText field), ("delim", optionalText delim),
    ("tokenizer", optionalText tokenizer), ("options", options.record)]
  | .mvexpand field limit => [("field", optionalText field), ("limit", optionalCount limit)]
  | .mvcombine field delim => [("field", optionalText field), ("delim", optionalText delim)]
  | .returnCommand count list => [
    ("count", optionalCount count), ("fields", listOf (·.record "ReturnField") list)]
  | .stats variant list byFields overField options => [
    ("variant", .choice variant.name.capitalize), ("aggregations", listOf (·.record place) list),
    ("by_fields", FieldRef.records place byFields),
    ("over_field", optional (·.record place) overField), ("options", options.record),
    ("preserves_fields", .flag variant.preservesFields)]
  | .top variant limit refs byFields options => [
    ("variant", .choice variant.name.capitalize), ("limit", optionalCount limit),
    ("fields", FieldRef.records place refs), ("by_fields", FieldRef.records place byFields),
    ("options", options.record), created]
  | .transaction names options => [
    ("fields", texts names), ("options", options.record), created]
  | .xyseries xField yField dataFields options => [
    ("x_field", optionalText xField), ("y_field", optionalText yField),
    ("data_fields", texts dataFields), ("options", options.record)]
  | .untable xField yField dataField => [
    ("x_field", optionalText xField), ("y_field", optionalText yField),
    ("data_field", optionalText dataField), created]
  | .transpose rowCount options => [
    ("row_count", optionalCount rowCount), ("options", options.record), created]
  | .fieldsummary names options => [
    ("fields", texts names), ("options", options.record), created]
  | .predict list options => [
    ("fields", listOf (·.record "PredictField") list), ("options", options.record), created]
  | .fit algorithm target features model newName options => [
    ("algorithm", optionalText algorithm), ("target", optionalText target),
    ("features", texts features), ("model", optionalText model), ("alias", optionalText newName),
    ("options", options.record), created]
  | .apply model newName options => [
    ("model", optionalText model), ("alias", optionalText newName), ("options", options.record)]
  | .rex field pattern mode maxMatch => [
    ("field", .text field), ("pattern", .text pattern), ("mode", optionalText mode),
    ("max_match", optionalCount maxMatch), ("extracted_fields", texts (Regex.groupNames pattern))]
  | .regex field negated pattern => [
    ("field", .text field), ("negated", .flag negated), ("pattern", .text pattern)]
  | .lookup source inputFields mode outputFields options => [
    ("table", optionalText source), ("input_fields", listOf (·.record "FieldMapping") inputFields),
    ("output_mode", optional
      (fun | .output => .choice "Output" | .outputnew => .choice "Outputnew") mode),
    ("output_fields", listOf (·.record "FieldMapping") outputFields), ("options", options.record)]
  | .outputlookup target options => [("table", optionalText target), ("options", options.record)]
  | .spath input output path => [
    ("input", optionalText input), ("output", optionalText output), ("path", optionalText path)]
  | .extract options => [("options", options.record)]
  | .rest endpoint options => [("endpoint", optionalText endpoint), ("options", options.record)]
  | .metadata kind options => [
    ("metadata_type", optionalText kind), ("options", options.record)]
  | .datamodel model dataset mode => [
    ("model", optionalText model), ("dataset", optionalText dataset), ("mode", optionalText mode)]
  | .loadjob job options => [("job", optionalText job), ("options", options.record)]
  | .savedsearch name options => [("name", optionalText name), ("options", options.record)]
  | .collect index options => [("index", optionalText index), ("options", options.record)]

end SimpleCommand

/-- The name of the command as the name of a case. -/
def Command.caseName : Command → String
  | .simple c => c.caseName
  | .append .. => "Append"
  | .generic .. => "Generic"
  | c => c.name.capitalize

/-- The name of the type of the command. -/
def Command.typeName (c : Command) : String := c.caseName ++ "Command"

/-! ## Queries -/

/-- One of the sorts of terms; the type of its fields has a name of its own. -/
def Term.sort (name type : String) (members : List (String × Record)) : Record :=
  .variant name (.fields type (some name) members)

mutual

/-- A query as a record. -/
def Pipeline.record (place : Places) : Pipeline → Record
  | .mk stages span => tagged "Pipeline" [
    ("stages", .list (Stage.recordsOfAll place stages)), ("location", place span)]

/-- Queries as records. -/
def Pipeline.recordsOfAll (place : Places) : List Pipeline → List Record
  | [] => []
  | p :: ps => p.record place :: Pipeline.recordsOfAll place ps

/-- A query, if there is one. -/
def Pipeline.recordOfOption (place : Places) : Option Pipeline → Record
  | none => .absent
  | some p => .present (p.record place)

/-- A stage as a record. -/
def Stage.record (place : Places) : Stage → Record
  | .search s => .variant "Search" (s.record place)
  | .command c span => .variant "Command" (.variant c.caseName (tagged c.typeName
    (c.members place ++ [("location", place span)])))

/-- Stages as records. -/
def Stage.recordsOfAll (place : Places) : List Stage → List Record
  | [] => []
  | s :: ss => s.record place :: Stage.recordsOfAll place ss

/-- A search as a record. -/
def Search.record (place : Places) : Search → Record
  | .mk terms span => tagged "SearchExpression" [
    ("terms", .list (Term.recordsOfAll place terms)),
    ("referenced_fields", texts (Search.mk terms span).fields), ("location", place span)]

/-- A search, if there is one. -/
def Search.recordOfOption (place : Places) : Option Search → Record
  | none => .absent
  | some s => .present (s.record place)

/-- A term as a record. -/
def Term.record (place : Places) : Term → Record
  | .or operands span => Term.sort "Or" "SearchOr" [
    ("operands", .list (Term.recordsOfAll place operands)), ("location", place span)]
  | .not operand span => Term.sort "Not" "SearchNot" [
    ("operand", operand.record place), ("location", place span)]
  | .group terms span => Term.sort "Group" "SearchGroup" [
    ("terms", .list (Term.recordsOfAll place terms)), ("location", place span)]
  | .comparison field operator value span => Term.sort "Comparison" "SearchComparison" [
    ("field", .text field), ("operator", .text operator), ("value", .text value),
    ("location", place span)]
  | .oneOf field values span => Term.sort "In" "SearchIn" [
    ("field", .text field), ("values", texts values), ("location", place span)]
  | .keyword text quoted span => Term.sort "Keyword" "SearchKeyword" [
    ("text", .text text), ("quoted", .flag quoted), ("location", place span)]
  | .macroCall name arguments span => Term.sort "Macro" "SearchMacro" [
    ("name", .text name), ("arguments", texts arguments), ("location", place span)]
  | .subsearch query span => Term.sort "Subsearch" "Subsearch" [
    ("pipeline", query.record place), ("location", place span)]

/-- Terms as records. -/
def Term.recordsOfAll (place : Places) : List Term → List Record
  | [] => []
  | t :: ts => t.record place :: Term.recordsOfAll place ts

/-- The arguments of a command as members, and the fields that it creates. -/
def Command.members (place : Places) : Command → List (String × Record)
  | .simple c => c.members place
  | .search s => [("expression", s.record place)]
  | .tstats list datamodel condition byFields options => [
    ("aggregations", listOf (·.record place) list), ("datamodel", optionalText datamodel),
    ("where_clause", Search.recordOfOption place condition),
    ("by_fields", FieldRef.records place byFields), ("options", options.record)]
  | .inputlookup table condition options => [
    ("table", optionalText table), ("where_clause", Search.recordOfOption place condition),
    ("options", options.record)]
  | .join mode refs options query => [
    ("join_type", optionalText mode), ("fields", FieldRef.records place refs),
    ("options", options.record), ("subsearch", Pipeline.recordOfOption place query)]
  | .append variant options query => [
    ("variant", .choice variant.name.capitalize), ("options", options.record),
    ("subsearch", Pipeline.recordOfOption place query)]
  | .union datasets options queries => [
    ("datasets", texts datasets), ("options", options.record),
    ("subsearches", .list (Pipeline.recordsOfAll place queries))]
  | .multisearch queries => [("subsearches", .list (Pipeline.recordsOfAll place queries))]
  | .foreach refs options body => [
    ("fields", FieldRef.records place refs), ("options", options.record),
    ("body", Pipeline.recordOfOption place body)]
  | .map text options query => [
    ("search", optionalText text), ("options", options.record),
    ("subsearch", Pipeline.recordOfOption place query)]
  | .generic name options arguments queries => [
    ("command_name", .text name), ("options", options.record), ("arguments", texts arguments),
    ("subsearches", .list (Pipeline.recordsOfAll place queries))]

end

end SplQuery
