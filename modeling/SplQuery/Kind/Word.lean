/-!
# Reserved words

The words with a meaning of their own in a query: those that begin a stage (`CommandWord`) and
those that divide one (`ClauseWord`). Both are recognised without regard to case, and both may
still be used as field names, so a word is a class of lexeme and not a ban on a spelling.

A word that Lean itself reserves carries the suffix `Word`: `CommandWord.whereWord` is `where`.
-/

namespace SplQuery

/-- A word that begins a stage, in the order of the command table. -/
inductive CommandWord where
  | search | whereWord | eval | fieldformat | stats | eventstats | streamstats | chart | timechart
  | tstats | rename | rex | regex | lookup | inputlookup | outputlookup | table | fields | dedup
  | sort | head | tail | reverse | uniq | top | rare | returnWord | join | append | appendcols
  | appendpipe | union | multisearch | foreach | map | bin | fillnull | filldown | transaction
  | spath | makemv | mvexpand | mvcombine | nomv | convert | makeresults | addinfo | gentimes
  | strcat | accum | delta | autoregress | addtotals | rangemap | replace | xyseries | untable
  | transpose | iplocation | extract | trendline | predict | fieldsummary | rest | metadata
  | datamodel | loadjob | savedsearch | collect | fit | apply
  deriving DecidableEq, Repr

/-- A word that divides a stage into clauses or joins two operands. -/
inductive ClauseWord where
  | byWord | as | over | output | outputnew | and | or | not | xor | like | inWord | withWord
  | fromWord | into | sortby | groupby
  deriving DecidableEq, Repr

namespace CommandWord

/-- Every command word, in table order. -/
def all : List CommandWord := [
  .search, .whereWord, .eval, .fieldformat, .stats, .eventstats, .streamstats, .chart, .timechart,
  .tstats, .rename, .rex, .regex, .lookup, .inputlookup, .outputlookup, .table, .fields, .dedup,
  .sort, .head, .tail, .reverse, .uniq, .top, .rare, .returnWord, .join, .append, .appendcols,
  .appendpipe, .union, .multisearch, .foreach, .map, .bin, .fillnull, .filldown, .transaction,
  .spath, .makemv, .mvexpand, .mvcombine, .nomv, .convert, .makeresults, .addinfo, .gentimes,
  .strcat, .accum, .delta, .autoregress, .addtotals, .rangemap, .replace, .xyseries, .untable,
  .transpose, .iplocation, .extract, .trendline, .predict, .fieldsummary, .rest, .metadata,
  .datamodel, .loadjob, .savedsearch, .collect, .fit, .apply]

/-- The canonical lower-case spelling. -/
def spelling : CommandWord → String
  | .search => "search"
  | .whereWord => "where"
  | .eval => "eval"
  | .fieldformat => "fieldformat"
  | .stats => "stats"
  | .eventstats => "eventstats"
  | .streamstats => "streamstats"
  | .chart => "chart"
  | .timechart => "timechart"
  | .tstats => "tstats"
  | .rename => "rename"
  | .rex => "rex"
  | .regex => "regex"
  | .lookup => "lookup"
  | .inputlookup => "inputlookup"
  | .outputlookup => "outputlookup"
  | .table => "table"
  | .fields => "fields"
  | .dedup => "dedup"
  | .sort => "sort"
  | .head => "head"
  | .tail => "tail"
  | .reverse => "reverse"
  | .uniq => "uniq"
  | .top => "top"
  | .rare => "rare"
  | .returnWord => "return"
  | .join => "join"
  | .append => "append"
  | .appendcols => "appendcols"
  | .appendpipe => "appendpipe"
  | .union => "union"
  | .multisearch => "multisearch"
  | .foreach => "foreach"
  | .map => "map"
  | .bin => "bin"
  | .fillnull => "fillnull"
  | .filldown => "filldown"
  | .transaction => "transaction"
  | .spath => "spath"
  | .makemv => "makemv"
  | .mvexpand => "mvexpand"
  | .mvcombine => "mvcombine"
  | .nomv => "nomv"
  | .convert => "convert"
  | .makeresults => "makeresults"
  | .addinfo => "addinfo"
  | .gentimes => "gentimes"
  | .strcat => "strcat"
  | .accum => "accum"
  | .delta => "delta"
  | .autoregress => "autoregress"
  | .addtotals => "addtotals"
  | .rangemap => "rangemap"
  | .replace => "replace"
  | .xyseries => "xyseries"
  | .untable => "untable"
  | .transpose => "transpose"
  | .iplocation => "iplocation"
  | .extract => "extract"
  | .trendline => "trendline"
  | .predict => "predict"
  | .fieldsummary => "fieldsummary"
  | .rest => "rest"
  | .metadata => "metadata"
  | .datamodel => "datamodel"
  | .loadjob => "loadjob"
  | .savedsearch => "savedsearch"
  | .collect => "collect"
  | .fit => "fit"
  | .apply => "apply"

/-- Every spelling under which the word is recognised, the canonical one first: `bucket` is `bin`
and `kv` is `extract`. -/
def spellings : CommandWord → List String
  | .bin => ["bin", "bucket"]
  | .extract => ["extract", "kv"]
  | c => [c.spelling]

end CommandWord

namespace ClauseWord

/-- Every clause word, in table order. -/
def all : List ClauseWord := [
  .byWord, .as, .over, .output, .outputnew, .and, .or, .not, .xor, .like, .inWord, .withWord,
  .fromWord, .into, .sortby, .groupby]

/-- The canonical lower-case spelling. -/
def spelling : ClauseWord → String
  | .byWord => "by"
  | .as => "as"
  | .over => "over"
  | .output => "output"
  | .outputnew => "outputnew"
  | .and => "and"
  | .or => "or"
  | .not => "not"
  | .xor => "xor"
  | .like => "like"
  | .inWord => "in"
  | .withWord => "with"
  | .fromWord => "from"
  | .into => "into"
  | .sortby => "sortby"
  | .groupby => "groupby"

end ClauseWord

end SplQuery
