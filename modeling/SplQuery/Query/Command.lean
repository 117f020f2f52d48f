import SplQuery.Kind.Word
import SplQuery.Query.Options
import SplQuery.Query.Part

/-!
# Commands without nested queries

`SimpleCommand` has a case for each command whose arguments hold no other query. What is missing
from the arguments is `none` or an empty list. `createdFields` lists the fields that a command adds
to every event, as far as they do not depend on the events.
-/

namespace SplQuery

/-- The commands of the `stats` family. -/
inductive StatsVariant where
  | stats | eventstats | streamstats | chart | timechart
  deriving DecidableEq, Repr

namespace StatsVariant

/-- The word of the command. -/
def name : StatsVariant → String
  | .stats => "stats"
  | .eventstats => "eventstats"
  | .streamstats => "streamstats"
  | .chart => "chart"
  | .timechart => "timechart"

/-- The command that a word begins; every other word stands for `stats`. -/
def ofWord : CommandWord → StatsVariant
  | .eventstats => .eventstats
  | .streamstats => .streamstats
  | .chart => .chart
  | .timechart => .timechart
  | _ => .stats

/-- Whether results are added to the events instead of taking their place. -/
def preservesFields : StatsVariant → Bool
  | .eventstats | .streamstats => true
  | _ => false

end StatsVariant

/-- The values that occur most often, or least often. -/
inductive TopVariant where
  | top | rare
  deriving DecidableEq, Repr

namespace TopVariant

/-- The word of the command. -/
def name : TopVariant → String
  | .top => "top"
  | .rare => "rare"

end TopVariant

/-- Whether the listed fields are kept or removed. -/
inductive FieldsMode where
  | keep | remove
  deriving DecidableEq, Repr

/-- Whether a lookup overwrites fields that have a value. -/
inductive LookupMode where
  | output | outputnew
  deriving DecidableEq, Repr

/-- A command whose arguments hold no other query. -/
inductive SimpleCommand where
  -- what computes fields
  | eval (assignments : List Assignment)
  | fieldformat (assignments : List Assignment)
  | convert (timeformat : Option String) (conversions : List Conversion)
  /-- every field is meant if none is listed -/
  | replace (replacements : List Replacement) (fields : List String)
  /-- the sources are fields and texts -/
  | strcat (sources : List Expression) (target : Option String) (allRequired : Bool)
  | trendline (trends : List Trend)
  | accum (field : String) (newName : Option String)
  | delta (field : String) (newName : Option String) (period : Option Nat)
  | autoregress (field : String) (newName : Option String) (lags : List Nat)
  | addtotals (fields : List String) (row col : Bool) (fieldname : String) (options : Options)
  /-- a range is given by its name and its two ends -/
  | rangemap (field : Option String) (ranges : Options) (default : Option String)
  | iplocation (field leading : Option String) (allFields : Bool)
  | makeresults (count : Option Nat) (annotate : Bool) (options : Options)
  | addinfo
  | gentimes (options : Options)
  | fillnull (value : Option String) (fields : List String)
  | filldown (fields : List String)
  | bin (field newName width : Option String) (bins : Option Nat) (options : Options)
  -- what selects events and fields
  | whereCommand (condition : Option Expression)
  | table (fields : List FieldRef)
  | fields (mode : FieldsMode) (fields : List FieldRef)
  | dedup (count : Option Nat) (fields : List FieldRef) (sortBy : List SortKey) (options : Options)
  | sort (limit : Option Nat) (keys : List SortKey) (reversed : Bool)
  | head (limit : Option Nat) (condition : Option Expression) (options : Options)
  | tail (limit : Option Nat)
  | reverse
  | uniq
  | rename (renamings : List Renaming)
  | nomv (field : Option String)
  | makemv (field delim tokenizer : Option String) (options : Options)
  | mvexpand (field : Option String) (limit : Option Nat)
  | mvcombine (field delim : Option String)
  | returnCommand (count : Option Nat) (fields : List RenamedField)
  -- what aggregates and reshapes
  | stats (variant : StatsVariant) (aggregations : List Aggregation) (byFields : List FieldRef)
    (overField : Option FieldRef) (options : Options)
  | top (variant : TopVariant) (limit : Option Nat) (fields byFields : List FieldRef)
    (options : Options)
  | transaction (fields : List String) (options : Options)
  | xyseries (xField yField : Option String) (dataFields : List String) (options : Options)
  | untable (xField yField dataField : Option String)
  | transpose (rowCount : Option Nat) (options : Options)
  | fieldsummary (fields : List String) (options : Options)
  | predict (fields : List RenamedField) (options : Options)
  | fit (algorithm target : Option String) (features : List String) (model newName : Option String)
    (options : Options)
  | apply (model newName : Option String) (options : Options)
  -- what extracts, looks up and administers
  | rex (field pattern : String) (mode : Option String) (maxMatch : Option Nat)
  | regex (field : String) (negated : Bool) (pattern : String)
  | lookup (table : Option String) (inputFields : List RenamedField) (mode : Option LookupMode)
    (outputFields : List RenamedField) (options : Options)
  | outputlookup (table : Option String) (options : Options)
  | spath (input output path : Option String)
  | extract (options : Options)
  | rest (endpoint : Option String) (options : Options)
  | metadata (kind : Option String) (options : Options)
  | datamodel (model dataset mode : Option String)
  | loadjob (job : Option String) (options : Options)
  | savedsearch (name : Option String) (options : Options)
  | collect (index : Option String) (options : Options)
  deriving Repr

namespace SimpleCommand

/-- The word of the command. -/
def name : SimpleCommand → String
  | .eval .. => "eval"
  | .fieldformat .. => "fieldformat"
  | .convert .. => "convert"
  | .replace .. => "replace"
  | .strcat .. => "strcat"
  | .trendline .. => "trendline"
  | .accum .. => "accum"
  | .delta .. => "delta"
  | .autoregress .. => "autoregress"
  | .addtotals .. => "addtotals"
  | .rangemap .. => "rangemap"
  | .iplocation .. => "iplocation"
  | .makeresults .. => "makeresults"
  | .addinfo => "addinfo"
  | .gentimes .. => "gentimes"
  | .fillnull .. => "fillnull"
  | .filldown .. => "filldown"
  | .bin .. => "bin"
  | .whereCommand .. => "where"
  | .table .. => "table"
  | .fields .. => "fields"
  | .dedup .. => "dedup"
  | .sort .. => "sort"
  | .head .. => "head"
  | .tail .. => "tail"
  | .reverse => "reverse"
  | .uniq => "uniq"
  | .rename .. => "rename"
  | .nomv .. => "nomv"
  | .makemv .. => "makemv"
  | .mvexpand .. => "mvexpand"
  | .mvcombine .. => "mvcombine"
  | .returnCommand .. => "return"
  | .stats variant .. => variant.name
  | .top variant .. => variant.name
  | .transaction .. => "transaction"
  | .xyseries .. => "xyseries"
  | .untable .. => "untable"
  | .transpose .. => "transpose"
  | .fieldsummary .. => "fieldsummary"
  | .predict .. => "predict"
  | .fit .. => "fit"
  | .apply .. => "apply"
  | .rex .. => "rex"
  | .regex .. => "regex"
  | .lookup .. => "lookup"
  | .outputlookup .. => "outputlookup"
  | .spath .. => "spath"
  | .extract .. => "extract"
  | .rest .. => "rest"
  | .metadata .. => "metadata"
  | .datamodel .. => "datamodel"
  | .loadjob .. => "loadjob"
  | .savedsearch .. => "savedsearch"
  | .collect .. => "collect"

/-! ## Created fields -/

/-- The fields with which `addinfo` describes a search. -/
def infoFields : List String :=
  ["info_min_time", "info_max_time", "info_search_time", "info_sid"]

/-- The fields that `gentimes` fills. -/
def timeFields : List String := ["starttime", "endtime", "starthuman", "endhuman"]

/-- The fields that `makeresults` fills when it annotates. -/
def annotatedFields : List String :=
  ["_raw", "host", "source", "sourcetype", "splunk_server", "splunk_server_group"]

/-- The fields that `iplocation` fills. -/
def placeFields : List String := ["City", "Country", "Region", "lat", "lon"]

/-- The fields that `iplocation` fills as well when all are asked for. -/
def morePlaceFields : List String := ["Continent", "MetroCode", "Timezone"]

/-- The fields with which `transaction` describes a group of events. -/
def transactionFields : List String :=
  ["duration", "eventcount", "closed_txn", "field_match_sum", "linecount"]

/-- The fields with which `fieldsummary` describes a field. -/
def summaryFields : List String :=
  ["field", "count", "distinct_count", "is_exact", "max", "mean", "min", "numeric_count", "stdev",
    "values"]

/-- How many rows `transpose` turns into columns unless a number is given. -/
def defaultTransposeRows : Nat := 5

/-- The counts that `top` adds. An option may name them or leave them out. -/
def topFields (options : Options) : List String :=
  (if options.flag "showcount" true then [(options.get? "countfield").getD "count"] else []) ++
    if options.flag "showperc" true then [(options.get? "percentfield").getD "percent"] else []

/-- The columns of a transposed table: the names of the fields, then one for each row. The number of
rows is any of 64 bits; whether so many columns can be listed is for `isListable` to say. -/
def transposedFields (rowCount : Option Nat) (options : Options) : List String :=
  (options.get? "column_name").getD "column" ::
    (List.range (rowCount.getD defaultTransposeRows)).map fun n => "row " ++ toString (n + 1)

/-- A prediction and the ends of the interval around it. -/
def predictedFields (f : RenamedField) : List String :=
  let output := f.newName.getD ("prediction(" ++ f.field ++ ")")
  [output, "upper95(" ++ output ++ ")", "lower95(" ++ output ++ ")"]

/-- The earlier values that `autoregress` adds. An alias counts only for a single one. -/
def lagFields (field : String) (newName : Option String) (lags : List Nat) : List String :=
  match newName, lags with
  | some newName, [_] => [newName]
  | _, lags => lags.map fun k => field ++ "_p" ++ toString k

/-- The fields that the command adds to every event. -/
def createdFields : SimpleCommand → List String
  | .strcat _ target _ => target.toList
  | .trendline trends => trends.map (·.output)
  | .delta field newName _ => [newName.getD ("delta(" ++ field ++ ")")]
  | .autoregress field newName lags => lagFields field newName lags
  | .addtotals _ row _ fieldname _ => if row then [fieldname] else []
  | .rangemap .. => ["range"]
  | .iplocation _ leading allFields =>
    (placeFields ++ if allFields then morePlaceFields else []).map (leading.getD "" ++ ·)
  | .makeresults _ annotate _ => "_time" :: if annotate then annotatedFields else []
  | .addinfo => infoFields
  | .gentimes _ => timeFields
  | .top _ _ _ _ options => topFields options
  | .transaction .. => transactionFields
  | .untable _ yField dataField => yField.toList ++ dataField.toList
  | .transpose rowCount options => transposedFields rowCount options
  | .fieldsummary .. => summaryFields
  | .predict predicted _ => predicted.flatMap predictedFields
  | .fit _ target _ _ newName _ =>
    match newName, target with
    | some newName, _ => [newName]
    | none, some target => ["predicted(" ++ target ++ ")"]
    | none, none => []
  | _ => []

/-- How many texts a list may hold: each takes 24 bytes, and no list takes 2 ^ 63 bytes. Whether
there is memory for a list that is shorter is not told. -/
def maxListed : Nat := 0x7fffffffffffffff / 24

/-- How many fields the command adds. The rows of a transposed table are not listed to count
them. -/
def createdCount : SimpleCommand → Nat
  | .transpose rowCount _ => rowCount.getD defaultTransposeRows + 1
  | c => c.createdFields.length

/-- Whether the fields that the command adds can be listed. They all are as soon as the command is
known, and the program ends there if they cannot. -/
def isListable (c : SimpleCommand) : Bool := c.createdCount ≤ maxListed

/-! ## Other views -/

/-- The options, where the command keeps them; the ranges of `rangemap`. -/
def options? : SimpleCommand → Option Options
  | .addtotals _ _ _ _ options | .rangemap _ options _ | .makeresults _ _ options
  | .gentimes options | .bin _ _ _ _ options | .dedup _ _ _ options | .head _ _ options
  | .makemv _ _ _ options | .stats _ _ _ _ options | .top _ _ _ _ options
  | .transaction _ options | .xyseries _ _ _ options | .transpose _ options
  | .fieldsummary _ options | .predict _ options | .fit _ _ _ _ _ options | .apply _ _ options
  | .lookup _ _ _ _ options | .outputlookup _ options | .extract options | .rest _ options
  | .metadata _ options | .loadjob _ options | .savedsearch _ options | .collect _ options =>
    some options
  | _ => none

/-- The expressions among the arguments, in order. -/
def expressions : SimpleCommand → List Expression
  | .eval assignments | .fieldformat assignments => assignments.map (·.expression)
  | .strcat sources _ _ => sources
  | .whereCommand condition | .head _ condition _ => condition.toList
  | .stats _ aggregations _ _ _ => aggregations.flatMap (·.arguments)
  | _ => []

end SimpleCommand

end SplQuery
