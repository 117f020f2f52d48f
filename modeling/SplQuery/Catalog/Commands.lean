import SplQuery.Catalog.Basic

/-!
# The command table

Every command that is known by name, in the order in which listings show them. A row starts from
`command`, which passes events through unchanged, and states only what differs.
-/

namespace SplQuery.Catalog

/-- Leaves every field alone. -/
def passes : FieldEffects := ⟨false, false, false, true⟩

/-- Adds fields. -/
def adds : FieldEffects := ⟨true, false, false, true⟩

/-- Alters fields that exist. -/
def alters : FieldEffects := ⟨false, true, false, true⟩

/-- Adds fields and alters others. -/
def addsAndAlters : FieldEffects := ⟨true, true, false, true⟩

/-- Keeps only the fields that it names. -/
def selects : FieldEffects := ⟨false, false, true, false⟩

/-- Puts its own fields in the place of all others. -/
def replaces : FieldEffects := ⟨true, false, true, false⟩

/-- A streaming command of no known risk that leaves every field alone. -/
def command (name : String) (category : CommandCategory) (description : String) : CommandInfo where
  name := name
  aliases := []
  category := category
  description := description
  effects := passes
  implicitFields := []
  risk := .none
  riskNote := none
  generating := false
  streaming := true

/-- The command table. -/
def commands : List CommandInfo := [
  { command "search" .search "Filter events with a search expression" with risk := .low },
  command "where" .filtering "Keep events whose eval expression is true",
  { command "regex" .filtering "Keep or discard events matching a regular expression" with
      risk := .medium, riskNote := some "regular expressions run against every event" },
  { command "dedup" .filtering "Remove events with duplicate field values" with risk := .low },
  command "head" .filtering "Keep the first N events",
  { command "tail" .filtering "Keep the last N events" with streaming := false },
  command "uniq" .filtering "Remove consecutive duplicate events",
  { command "eval" .fieldCreation "Compute fields from expressions" with
      effects := addsAndAlters },
  { command "fieldformat" .formatting "Change how a field is displayed" with effects := alters },
  { command "rename" .fieldManipulation "Rename fields" with effects := addsAndAlters },
  { command "rex" .extraction "Extract fields with named regex groups" with
      effects := addsAndAlters, risk := .medium,
      riskNote := some "regular expressions run against every event" },
  { command "spath" .extraction "Extract fields from JSON or XML" with effects := adds },
  { command "extract" .extraction "Extract key/value pairs from the raw event" with
      aliases := ["kv"], effects := adds },
  { command "xmlkv" .extraction "Extract XML key/value pairs" with effects := adds },
  { command "kvform" .extraction "Extract fields using form templates" with effects := adds },
  { command "iplocation" .extraction "Add geographic fields for an IP address" with
      effects := adds, implicitFields := ["City", "Country", "Region", "lat", "lon"] },
  { command "bin" .fieldManipulation "Put continuous values into discrete buckets" with
      aliases := ["bucket"], effects := alters },
  { command "fillnull" .fieldManipulation "Replace null values" with effects := addsAndAlters },
  { command "filldown" .fieldManipulation "Replace nulls with the last non-null value" with
      effects := alters },
  { command "convert" .formatting "Convert field values with conversion functions" with
      effects := addsAndAlters },
  { command "replace" .fieldManipulation "Replace field values" with effects := alters },
  { command "strcat" .fieldCreation "Concatenate values into a new field" with effects := adds },
  { command "accum" .fieldCreation "Running total of a numeric field" with
      effects := addsAndAlters },
  { command "delta" .fieldCreation "Difference between neighboring values" with effects := adds },
  { command "autoregress" .fieldCreation "Copy previous values into the current event" with
      effects := adds },
  { command "addtotals" .fieldCreation "Sum numeric fields per event or per column" with
      effects := adds, implicitFields := ["Total"] },
  { command "rangemap" .fieldCreation "Classify a numeric field into named ranges" with
      effects := adds, implicitFields := ["range"] },
  { command "addinfo" .fieldCreation "Add search metadata fields" with
      effects := adds, implicitFields := ["info_min_time", "info_max_time", "info_search_time",
      "info_sid"] },
  { command "trendline" .fieldCreation "Moving averages of a field" with effects := adds },
  { command "setfields" .fieldCreation "Set field values to constants" with
      effects := addsAndAlters },
  { command "tags" .fieldCreation "Annotate events with tags" with effects := adds },
  { command "localize" .fieldCreation "Find time ranges with events" with
      effects := replaces, streaming := false },
  { command "scrub" .fieldManipulation "Anonymize search results" with effects := alters },
  command "highlight" .formatting "Highlight terms in results",
  { command "abstract" .formatting "Summarize each event's raw text" with effects := alters },
  { command "table" .fieldManipulation "Keep the named fields as table columns" with
      effects := selects, streaming := false },
  { command "fields" .fieldManipulation "Keep or remove fields" with effects := selects },
  { command "makemv" .multivalue "Split a field into a multivalue field" with effects := alters },
  { command "mvexpand" .multivalue "Expand a multivalue field into separate events" with
      effects := alters, risk := .medium, riskNote := some "multiplies the number of events" },
  { command "mvcombine" .multivalue "Combine events that differ in one field" with
      effects := alters, streaming := false },
  { command "nomv" .multivalue "Turn a multivalue field into a single value" with
      effects := alters },
  { command "stats" .aggregation "Aggregate events into statistics" with
      effects := replaces, streaming := false },
  { command "eventstats" .aggregation "Add aggregate statistics to every event" with
      effects := adds, streaming := false, risk := .medium,
      riskNote := some "holds the full result set in memory" },
  { command "streamstats" .aggregation "Running statistics in event order" with
      effects := adds, risk := .low },
  { command "chart" .aggregation "Aggregate into a chart table" with
      effects := replaces, streaming := false },
  { command "timechart" .aggregation "Aggregate into a time series" with
      effects := replaces, streaming := false, implicitFields := ["_time"] },
  { command "tstats" .aggregation "Statistics over indexed fields" with
      effects := replaces, generating := true, streaming := false },
  { command "mstats" .aggregation "Statistics over metric indexes" with
      effects := replaces, generating := true, streaming := false },
  { command "geostats" .aggregation "Statistics clustered on a map grid" with
      effects := replaces, streaming := false },
  { command "sistats" .aggregation "Summary indexing version of stats" with
      effects := replaces, streaming := false },
  { command "sichart" .aggregation "Summary indexing version of chart" with
      effects := replaces, streaming := false },
  { command "sitimechart" .aggregation "Summary indexing version of timechart" with
      effects := replaces, streaming := false },
  { command "sitop" .aggregation "Summary indexing version of top" with
      effects := replaces, streaming := false },
  { command "top" .aggregation "Most common values of a field" with
      effects := replaces, streaming := false, implicitFields := ["count", "percent"] },
  { command "rare" .aggregation "Least common values of a field" with
      effects := replaces, streaming := false, implicitFields := ["count", "percent"] },
  { command "transaction" .aggregation "Group events into transactions" with
      effects := addsAndAlters, streaming := false, implicitFields := ["duration", "eventcount",
      "closed_txn", "field_match_sum", "linecount"], risk := .high,
      riskNote := some "keeps open transactions in memory" },
  { command "fieldsummary" .aggregation "Summary statistics for every field" with
      effects := replaces, streaming := false, implicitFields := ["field", "count",
      "distinct_count", "is_exact", "max", "mean", "min", "numeric_count", "stdev", "values"] },
  { command "contingency" .aggregation "Co-occurrence matrix of two fields" with
      effects := replaces, streaming := false },
  { command "associate" .aggregation "Find correlations between fields" with
      effects := replaces, streaming := false },
  { command "correlate" .aggregation "Co-occurrence of every field pair" with
      effects := replaces, streaming := false },
  { command "xyseries" .formatting "Convert results into a chart-ready table" with
      effects := replaces, streaming := false },
  { command "untable" .formatting "Convert a table into x/y/value rows" with
      effects := replaces, streaming := false },
  { command "transpose" .formatting "Swap rows and columns" with
      effects := replaces, streaming := false, implicitFields := ["column"] },
  { command "sort" .ordering "Sort results by fields" with
      streaming := false, risk := .medium, riskNote := some "needs the full result set" },
  { command "reverse" .ordering "Reverse result order" with streaming := false, risk := .low },
  { command "join" .combining "Join results with a subsearch" with
      effects := addsAndAlters, streaming := false, risk := .high,
      riskNote := some "subsearch results are limited and held in memory" },
  { command "selfjoin" .combining "Join results with themselves" with
      effects := addsAndAlters, streaming := false, risk := .medium,
      riskNote := some "compares every pair of events" },
  { command "append" .combining "Append subsearch results" with
      streaming := false, risk := .medium, riskNote := some "subsearch runs to completion first" },
  { command "appendcols" .combining "Append subsearch columns" with
      effects := addsAndAlters, streaming := false, risk := .medium,
      riskNote := some "subsearch runs to completion first" },
  { command "appendpipe" .combining "Append results of a sub-pipeline" with
      streaming := false, risk := .low },
  { command "union" .combining "Merge results from several datasets" with
      risk := .medium, riskNote := some "every dataset is searched" },
  { command "multisearch" .combining "Run streaming searches concurrently" with
      generating := true, streaming := false, risk := .medium,
      riskNote := some "every subsearch is executed" },
  { command "foreach" .combining "Run a template pipeline for each matching field" with
      effects := addsAndAlters },
  { command "map" .combining "Run a search for every result" with
      generating := true, streaming := false, risk := .high,
      riskNote := some "launches one search per input row" },
  { command "return" .combining "Return values from a subsearch" with
      effects := replaces, streaming := false },
  { command "format" .combining "Turn results into a search string" with
      effects := replaces, streaming := false },
  { command "lookup" .lookup "Enrich events from a lookup table" with effects := addsAndAlters },
  { command "inputlookup" .lookup "Read a lookup table" with
      generating := true, streaming := false },
  { command "outputlookup" .lookup "Write results to a lookup table" with streaming := false },
  { command "inputcsv" .lookup "Read a CSV file" with generating := true, streaming := false },
  { command "outputcsv" .output "Write results to a CSV file" with streaming := false },
  { command "makeresults" .generating "Generate empty results" with
      effects := adds, generating := true, streaming := false, implicitFields := ["_time"] },
  { command "gentimes" .generating "Generate time range results" with
      effects := adds, generating := true, streaming := false, implicitFields := ["starttime",
      "endtime", "starthuman", "endhuman"] },
  { command "rest" .generating "Query a REST endpoint" with
      generating := true, streaming := false, risk := .medium,
      riskNote := some "queries every search peer" },
  { command "metadata" .generating "List hosts, sources or sourcetypes" with
      generating := true, streaming := false, risk := .low },
  { command "datamodel" .generating "Search a data model dataset" with
      generating := true, streaming := false, risk := .medium,
      riskNote := some "expands to the dataset's full search" },
  { command "loadjob" .generating "Load results of a finished job" with
      generating := true, streaming := false },
  { command "savedsearch" .generating "Run a saved search" with
      generating := true, streaming := false, risk := .medium,
      riskNote := some "runs another search inline" },
  { command "eventcount" .generating "Count events in indexes" with
      generating := true, streaming := false },
  { command "dbinspect" .admin "Inspect index buckets" with
      generating := true, streaming := false },
  { command "history" .admin "Search history of the current user" with
      generating := true, streaming := false },
  { command "audit" .admin "Audit trail events" with generating := true, streaming := false },
  { command "typeahead" .admin "Autocomplete suggestions" with
      generating := true, streaming := false },
  { command "collect" .output "Write results to a summary index" with
      risk := .medium, riskNote := some "writes to an index" },
  { command "mcollect" .output "Write results to a metrics index" with
      risk := .medium, riskNote := some "writes to an index" },
  { command "meventcollect" .output "Write events to a metrics index" with
      risk := .medium, riskNote := some "writes to an index" },
  { command "sendemail" .output "Email search results" with
      risk := .medium, riskNote := some "sends mail" },
  { command "script" .output "Run an external script" with
      risk := .high, riskNote := some "runs external code" },
  { command "predict" .machineLearning "Forecast time series values" with
      effects := adds, streaming := false },
  { command "fit" .machineLearning "Train a model" with
      effects := adds, streaming := false, risk := .high,
      riskNote := some "model training is memory intensive" },
  { command "apply" .machineLearning "Apply a trained model" with effects := adds },
  { command "cluster" .machineLearning "Group similar events" with
      effects := adds, streaming := false, implicitFields := ["cluster_count", "cluster_label"] },
  { command "kmeans" .machineLearning "K-means clustering" with
      effects := adds, streaming := false, implicitFields := ["CLUSTERNUM"] },
  { command "anomalydetection" .machineLearning "Find anomalous events" with
      effects := adds, streaming := false },
  { command "diff" .machineLearning "Compare two results line by line" with
      effects := replaces, streaming := false },
  { command "addcoltotals" .fieldCreation "Append a column totals row" with
      effects := adds, streaming := false },
  { command "delete" .admin "Make events unsearchable" with
      risk := .high, riskNote := some "irreversibly hides indexed data" }]

end SplQuery.Catalog
