import SplQuery.Pattern.Basic

/-!
# The patterns of the commands

One entry for each word that begins a stage, in the order of these words.
-/

namespace SplQuery

namespace Registry

open Pattern (keyword seq optional choice options)

/-- A value that leaves the fields alone. -/
def value (name : String) (type : ParamType) : Pattern := .param ⟨name, type, .none⟩

/-- A value that names a field which the command adds. -/
def creates (name : String) (type : ParamType) : Pattern := .param ⟨name, type, .creates⟩

/-- A value that names a field which the command alters. -/
def modifies (name : String) (type : ParamType) : Pattern := .param ⟨name, type, .modifies⟩

/-- A value that names a field which the command removes. -/
def drops (name : String) (type : ParamType) : Pattern := .param ⟨name, type, .drops⟩

/-- At least one item, commas between items optional. -/
def oneOrMore (item : Pattern) : Pattern := .repeated item (some ",") 1

/-- Any number of items, commas between items optional. -/
def anyNumber (item : Pattern) : Pattern := .repeated item (some ",") 0

/-! ## Shapes that several commands share -/

/-- No argument at all. -/
def noArguments : Pattern :=
  seq []

/-- Any number of options, none of them offered. -/
def anyOptions : Pattern :=
  options []

/-- `by field ...`. -/
def byClause : Pattern :=
  seq [choice [keyword "by", keyword "groupby"], value "by" .fieldList]

/-- `over field`. -/
def overClause : Pattern :=
  seq [keyword "over", value "over" .field]

/-- `as name`. -/
def asName : Pattern :=
  seq [keyword "as", creates "alias" .field]

/-- An aggregation, with another name if it is given one. -/
def aggregation : Pattern :=
  seq [creates "aggregation" .aggregation, optional asName]

/-- What the aggregating commands take. -/
def stats : Pattern :=
  oneOrMore (choice [
    aggregation,
    byClause,
    overClause,
    options [
      ⟨"allnum", .boolean⟩, ⟨"delim", .string⟩, ⟨"partitions", .integer⟩, ⟨"span", .timeSpan⟩,
      ⟨"bins", .integer⟩, ⟨"limit", .integer⟩, ⟨"useother", .boolean⟩, ⟨"usenull", .boolean⟩,
      ⟨"window", .integer⟩, ⟨"current", .boolean⟩, ⟨"global", .boolean⟩,
      ⟨"reset_on_change", .boolean⟩, ⟨"time_window", .timeSpan⟩, ⟨"cont", .boolean⟩]])

/-- What `top` and `rare` take. -/
def top : Pattern :=
  seq [
    optional (value "limit" .integer),
    oneOrMore (choice [
      value "fields" .fieldList,
      byClause,
      options [
        ⟨"limit", .integer⟩, ⟨"countfield", .name⟩, ⟨"percentfield", .name⟩,
        ⟨"showcount", .boolean⟩, ⟨"showperc", .boolean⟩, ⟨"useother", .boolean⟩,
        ⟨"otherstr", .string⟩]])]

/-- What the appending commands take. -/
def append : Pattern :=
  seq [
    options [
      ⟨"extendtimerange", .boolean⟩, ⟨"maxtime", .integer⟩, ⟨"maxout", .integer⟩,
      ⟨"timeout", .integer⟩, ⟨"override", .boolean⟩],
    value "subsearch" .subsearch]

/-- A field to sort by, or a function of one. -/
def sortField : Pattern :=
  seq [
    optional (choice [keyword "+", keyword "-"]),
    choice [
      seq [value "function" .name, keyword "(", value "field" .field, keyword ")"],
      value "field" .wildcardField]]

/-- `fn(field) as name`. -/
def fieldCall : Pattern :=
  seq [
    value "function" .name,
    keyword "(",
    optional (value "field" .wildcardField),
    keyword ")",
    optional asName]

/-- A field that is looked up, under another name in the table if one is given. -/
def lookupMapping : Pattern :=
  seq [value "field" .field, optional (seq [keyword "as", value "alias" .field])]

/-- A field that is taken from the table, under another name if one is given. -/
def lookupOutput : Pattern :=
  seq [creates "field" .field, optional (seq [keyword "as", creates "alias" .field])]

/-! ## The table -/

/-- The entries, in the order of the words. -/
def commands : List CommandSyntax := [
  ⟨"search", [], "search <search-expression>", optional (value "search" .searchExpression)⟩,
  ⟨"where", [], "where <expression>", value "condition" .expression⟩,
  ⟨"eval", [], "eval <field>=<expression> [, <field>=<expression>]...",
    oneOrMore (seq [creates "field" .field, keyword "=", value "expression" .expression])⟩,
  ⟨"fieldformat", [], "fieldformat <field>=<expression> [, <field>=<expression>]...",
    oneOrMore (seq [modifies "field" .field, keyword "=", value "expression" .expression])⟩,
  ⟨"stats", [], "stats <aggregation> [AS <alias>]... [BY <field-list>]", stats⟩,
  ⟨"eventstats", [], "eventstats <aggregation> [AS <alias>]... [BY <field-list>]", stats⟩,
  ⟨"streamstats", [], "streamstats [window=<int>] <aggregation> [AS <alias>]... [BY <field-list>]",
    stats⟩,
  ⟨"chart", [], "chart <aggregation> [AS <alias>]... [OVER <field>] [BY <field>]", stats⟩,
  ⟨"timechart", [], "timechart [span=<time>] <aggregation> [AS <alias>]... [BY <field>]", stats⟩,
  ⟨"tstats", [],
    "tstats <aggregation>... [FROM datamodel=<name>] [WHERE <search>] [BY <field-list>]",
    oneOrMore (choice [
      aggregation,
      seq [keyword "from", options [⟨"datamodel", .name⟩], optional (value "datamodel" .name)],
      seq [keyword "where", value "where" .searchExpression],
      byClause,
      options [
        ⟨"summariesonly", .boolean⟩, ⟨"allow_old_summaries", .boolean⟩,
        ⟨"prestats", .boolean⟩, ⟨"local", .boolean⟩, ⟨"append", .boolean⟩,
        ⟨"chunk_size", .integer⟩]])⟩,
  ⟨"rename", [], "rename <field> AS <new-name> [, <field> AS <new-name>]...",
    oneOrMore (seq [
      drops "field" .wildcardField, keyword "as", creates "new_name" .wildcardField])⟩,
  ⟨"rex", [], "rex [field=<field>] [mode=sed] [max_match=<int>] \"<regex>\"",
    seq [
      options [
        ⟨"field", .field⟩, ⟨"mode", .name⟩, ⟨"max_match", .integer⟩, ⟨"offset_field", .field⟩],
      creates "regex" .regex,
      anyOptions]⟩,
  ⟨"regex", [], "regex [<field>=|<field>!=] \"<regex>\"",
    seq [
      optional (seq [value "field" .field, choice [keyword "=", keyword "!="]]),
      value "regex" .regex]⟩,
  ⟨"lookup", [],
    "lookup <table> <field> [AS <alias>]... [OUTPUT|OUTPUTNEW <field> [AS <alias>]...]",
    seq [
      options [⟨"local", .boolean⟩, ⟨"update", .boolean⟩],
      value "table" .name,
      oneOrMore lookupMapping,
      anyOptions,
      optional (seq [choice [keyword "output", keyword "outputnew"], oneOrMore lookupOutput])]⟩,
  ⟨"inputlookup", [], "inputlookup [append=<bool>] <table> [WHERE <search>]",
    seq [
      options [⟨"append", .boolean⟩, ⟨"start", .integer⟩, ⟨"max", .integer⟩],
      value "table" .name,
      anyOptions,
      optional (seq [keyword "where", value "where" .searchExpression])]⟩,
  ⟨"outputlookup", [], "outputlookup [append=<bool>] [create_empty=<bool>] <table>",
    seq [
      options [
        ⟨"append", .boolean⟩, ⟨"create_empty", .boolean⟩, ⟨"override_if_empty", .boolean⟩,
        ⟨"max", .integer⟩, ⟨"key_field", .field⟩, ⟨"createinapp", .boolean⟩],
      value "table" .name,
      anyOptions]⟩,
  ⟨"table", [], "table <field-list>", value "fields" .fieldList⟩,
  ⟨"fields", [], "fields [+|-] <field-list>",
    seq [optional (choice [keyword "+", keyword "-"]), value "fields" .fieldList]⟩,
  ⟨"dedup", [], "dedup [<int>] <field-list> [keepevents=<bool>] [SORTBY <sort-field>...]",
    seq [
      optional (value "count" .integer),
      oneOrMore (choice [
        value "fields" .fieldList,
        options [
          ⟨"keepevents", .boolean⟩, ⟨"keepempty", .boolean⟩, ⟨"consecutive", .boolean⟩],
        seq [keyword "sortby", oneOrMore sortField]])]⟩,
  ⟨"sort", [], "sort [<int>] [+|-]<field>... [desc]",
    seq [
      optional (value "limit" .integer),
      oneOrMore (choice [sortField, options [⟨"limit", .integer⟩]])]⟩,
  ⟨"head", [], "head [<int>] [limit=<int>] [<expression>]",
    seq [
      optional (value "limit" .integer),
      options [⟨"limit", .integer⟩, ⟨"null", .boolean⟩, ⟨"keeplast", .boolean⟩],
      optional (value "condition" .expression),
      anyOptions]⟩,
  ⟨"tail", [], "tail [<int>]", optional (value "count" .integer)⟩,
  ⟨"reverse", [], "reverse", noArguments⟩,
  ⟨"uniq", [], "uniq", noArguments⟩,
  ⟨"top", [], "top [<int>] [limit=<int>] <field-list> [BY <field-list>]", top⟩,
  ⟨"rare", [], "rare [<int>] [limit=<int>] <field-list> [BY <field-list>]", top⟩,
  ⟨"return", [], "return [<int>] [<alias>=<field>|<field>]...",
    seq [
      optional (value "count" .integer),
      anyNumber (choice [
        seq [value "alias" .name, keyword "=", value "field" .field],
        value "field" .field])]⟩,
  ⟨"join", [], "join [type=inner|left|outer] [<field-list>] [ <subsearch> ]",
    seq [
      options [
        ⟨"type", .name⟩, ⟨"usetime", .boolean⟩, ⟨"earlier", .boolean⟩,
        ⟨"overwrite", .boolean⟩, ⟨"max", .integer⟩],
      optional (value "fields" .fieldList),
      anyOptions,
      value "subsearch" .subsearch]⟩,
  ⟨"append", [], "append [ <subsearch> ]", append⟩,
  ⟨"appendcols", [], "appendcols [override=<bool>] [ <subsearch> ]", append⟩,
  ⟨"appendpipe", [], "appendpipe [ <subpipeline> ]", append⟩,
  ⟨"union", [], "union [<dataset>|[ <subsearch> ]]...",
    seq [
      options [⟨"maxtime", .integer⟩, ⟨"maxout", .integer⟩, ⟨"timeout", .integer⟩],
      oneOrMore (choice [value "subsearch" .subsearch, value "dataset" .name])]⟩,
  ⟨"multisearch", [], "multisearch [ <subsearch> ] [ <subsearch> ]...",
    oneOrMore (value "subsearch" .subsearch)⟩,
  ⟨"foreach", [], "foreach <field-list> [fieldstr=<str>] [ <subsearch-template> ]",
    seq [
      oneOrMore (choice [
        value "fields" .fieldList,
        options [
          ⟨"fieldstr", .string⟩, ⟨"matchstr", .string⟩, ⟨"matchseg1", .string⟩,
          ⟨"matchseg2", .string⟩, ⟨"matchseg3", .string⟩]]),
      value "template" .subsearch]⟩,
  ⟨"map", [], "map (search=\"<search>\" | <savedsearch> | [ <subsearch> ]) [maxsearches=<int>]",
    seq [
      options [⟨"search", .string⟩, ⟨"maxsearches", .integer⟩],
      optional (choice [value "subsearch" .subsearch, value "savedsearch" .name]),
      anyOptions]⟩,
  ⟨"bin", ["bucket"], "bin [span=<time>] [bins=<int>] <field> [AS <alias>]",
    seq [
      options [
        ⟨"span", .timeSpan⟩, ⟨"bins", .integer⟩, ⟨"minspan", .timeSpan⟩, ⟨"start", .number⟩,
        ⟨"end", .number⟩, ⟨"aligntime", .timeSpan⟩],
      modifies "field" .field,
      anyOptions,
      optional asName,
      anyOptions]⟩,
  ⟨"fillnull", [], "fillnull [value=<string>] [<field-list>]",
    seq [options [⟨"value", .any⟩], optional (modifies "fields" .fieldList), anyOptions]⟩,
  ⟨"filldown", [], "filldown [<field-list>]", optional (modifies "fields" .fieldList)⟩,
  ⟨"transaction", [],
    "transaction [<field-list>] [maxspan=<time>] [maxpause=<time>] [startswith=<filter>] " ++
      "[endswith=<filter>]",
    anyNumber (choice [
      value "fields" .fieldList,
      options [
        ⟨"maxspan", .timeSpan⟩, ⟨"maxpause", .timeSpan⟩, ⟨"maxevents", .integer⟩,
        ⟨"startswith", .any⟩, ⟨"endswith", .any⟩, ⟨"keepevicted", .boolean⟩,
        ⟨"mvlist", .boolean⟩, ⟨"delim", .string⟩, ⟨"connected", .boolean⟩,
        ⟨"unifyends", .boolean⟩, ⟨"keeporphans", .boolean⟩]])⟩,
  ⟨"spath", [], "spath [input=<field>] [output=<field>] [path=<path> | <path>]",
    seq [
      options [⟨"input", .field⟩, ⟨"output", .field⟩, ⟨"path", .any⟩],
      optional (value "path" .any),
      anyOptions]⟩,
  ⟨"makemv", [], "makemv [delim=<string>|tokenizer=<string>] [allowempty=<bool>] <field>",
    seq [
      options [
        ⟨"delim", .string⟩, ⟨"tokenizer", .string⟩, ⟨"allowempty", .boolean⟩,
        ⟨"setsv", .boolean⟩],
      modifies "field" .field,
      anyOptions]⟩,
  ⟨"mvexpand", [], "mvexpand <field> [limit=<int>]",
    seq [anyOptions, modifies "field" .field, options [⟨"limit", .integer⟩]]⟩,
  ⟨"mvcombine", [], "mvcombine [delim=<string>] <field>",
    seq [options [⟨"delim", .string⟩], modifies "field" .field, anyOptions]⟩,
  ⟨"nomv", [], "nomv <field>", modifies "field" .field⟩,
  ⟨"convert", [], "convert [timeformat=<string>] <function>(<field>) [AS <alias>]...",
    seq [options [⟨"timeformat", .string⟩], oneOrMore (choice [fieldCall, anyOptions])]⟩,
  ⟨"makeresults", [], "makeresults [count=<int>] [annotate=<bool>]",
    options [
      ⟨"count", .integer⟩, ⟨"annotate", .boolean⟩, ⟨"splunk_server", .name⟩,
      ⟨"splunk_server_group", .name⟩]⟩,
  ⟨"addinfo", [], "addinfo", noArguments⟩,
  ⟨"gentimes", [], "gentimes start=<time> [end=<time>] [increment=<time>]",
    options [⟨"start", .any⟩, ⟨"end", .any⟩, ⟨"increment", .timeSpan⟩]⟩,
  ⟨"strcat", [], "strcat [allrequired=<bool>] <source>... <dest-field>",
    seq [
      options [⟨"allrequired", .boolean⟩],
      oneOrMore (choice [value "source" .string, value "source" .field]),
      creates "destination" .field]⟩,
  ⟨"accum", [], "accum <field> [AS <alias>]", seq [modifies "field" .field, optional asName]⟩,
  ⟨"delta", [], "delta <field> [AS <alias>] [p=<int>]",
    seq [
      options [⟨"p", .integer⟩],
      value "field" .field,
      anyOptions,
      optional asName,
      anyOptions]⟩,
  ⟨"autoregress", [], "autoregress <field> [AS <alias>] [p=<int>[-<int>]]",
    seq [options [⟨"p", .any⟩], value "field" .field, anyOptions, optional asName, anyOptions]⟩,
  ⟨"addtotals", [], "addtotals [row=<bool>] [col=<bool>] [fieldname=<field>] [<field-list>]",
    anyNumber (choice [
      value "fields" .fieldList,
      options [
        ⟨"row", .boolean⟩, ⟨"col", .boolean⟩, ⟨"labelfield", .field⟩, ⟨"label", .string⟩,
        ⟨"fieldname", .field⟩]])⟩,
  ⟨"rangemap", [], "rangemap field=<field> <name>=<range>... [default=<name>]",
    options [⟨"field", .field⟩, ⟨"default", .name⟩]⟩,
  ⟨"replace", [], "replace <value> WITH <value> [, <value> WITH <value>]... [IN <field-list>]",
    seq [
      oneOrMore (seq [value "from" .any, keyword "with", value "to" .any]),
      optional (seq [keyword "in", modifies "fields" .fieldList])]⟩,
  ⟨"xyseries", [], "xyseries <x-field> <y-field> <data-field>...",
    seq [
      options [⟨"grouped", .boolean⟩, ⟨"sep", .string⟩, ⟨"format", .string⟩],
      value "x_field" .field,
      value "y_field" .field,
      value "data_fields" .fieldList,
      anyOptions]⟩,
  ⟨"untable", [], "untable <x-field> <y-name-field> <y-data-field>",
    seq [value "x_field" .field, creates "y_field" .field, creates "data_field" .field]⟩,
  ⟨"transpose", [], "transpose [<int>] [column_name=<string>] [header_field=<field>]",
    seq [
      anyOptions,
      optional (value "count" .integer),
      options [⟨"column_name", .string⟩, ⟨"header_field", .field⟩, ⟨"include_empty", .boolean⟩]]⟩,
  ⟨"iplocation", [], "iplocation [prefix=<string>] [allfields=<bool>] <ip-field>",
    seq [
      options [⟨"prefix", .string⟩, ⟨"allfields", .boolean⟩, ⟨"lang", .name⟩],
      value "field" .field,
      anyOptions]⟩,
  ⟨"extract", ["kv"], "extract [pairdelim=<string>] [kvdelim=<string>] [<extractor>...]",
    seq [
      options [
        ⟨"pairdelim", .string⟩, ⟨"kvdelim", .string⟩, ⟨"auto", .boolean⟩,
        ⟨"clean_keys", .boolean⟩, ⟨"limit", .integer⟩, ⟨"maxchars", .integer⟩,
        ⟨"mv_add", .boolean⟩, ⟨"reload", .boolean⟩, ⟨"segment", .boolean⟩],
      anyNumber (value "extractor" .name),
      anyOptions]⟩,
  ⟨"trendline", [], "trendline <trend><period>(<field>) [AS <alias>]...", oneOrMore fieldCall⟩,
  ⟨"predict", [], "predict <field> [AS <alias>]... [algorithm=<name>] [future_timespan=<int>]",
    oneOrMore (choice [
      seq [value "field" .field, optional asName],
      options [
        ⟨"algorithm", .name⟩, ⟨"future_timespan", .integer⟩, ⟨"holdback", .integer⟩,
        ⟨"period", .integer⟩, ⟨"correlate", .field⟩]])⟩,
  ⟨"fieldsummary", [], "fieldsummary [maxvals=<int>] [<field-list>]",
    seq [options [⟨"maxvals", .integer⟩], optional (value "fields" .fieldList)]⟩,
  ⟨"rest", [], "rest <endpoint> [count=<int>] [splunk_server=<name>]",
    seq [
      value "endpoint" .any,
      options [⟨"count", .integer⟩, ⟨"splunk_server", .name⟩, ⟨"timeout", .integer⟩]]⟩,
  ⟨"metadata", [], "metadata type=<hosts|sources|sourcetypes> [index=<name>]",
    options [⟨"type", .name⟩, ⟨"index", .name⟩, ⟨"splunk_server", .name⟩]⟩,
  ⟨"datamodel", [], "datamodel [<model> [<dataset> [<search-mode>]]]",
    seq [
      optional (value "model" .name),
      optional (value "dataset" .name),
      optional (value "mode" .name),
      anyOptions]⟩,
  ⟨"loadjob", [], "loadjob <sid> | savedsearch=<user:app:search>",
    seq [
      anyOptions,
      optional (value "job" .any),
      options [
        ⟨"savedsearch", .string⟩, ⟨"events", .boolean⟩, ⟨"artifact_offset", .integer⟩,
        ⟨"ignore_running", .boolean⟩]]⟩,
  ⟨"savedsearch", [], "savedsearch <name> [<key>=<value>]...", seq [value "name" .any, anyOptions]⟩,
  ⟨"collect", [], "collect index=<name> [sourcetype=<name>] [marker=<string>]",
    options [
      ⟨"index", .name⟩, ⟨"source", .string⟩, ⟨"sourcetype", .name⟩, ⟨"marker", .string⟩,
      ⟨"addtime", .boolean⟩, ⟨"spool", .boolean⟩, ⟨"testmode", .boolean⟩]⟩,
  ⟨"fit", [], "fit <algorithm> [<target>] [FROM <field-list>] [INTO <model>] [AS <alias>]",
    seq [
      value "algorithm" .name,
      anyNumber (choice [
        value "fields" .fieldList,
        seq [keyword "from", value "features" .fieldList],
        seq [keyword "into", value "model" .name],
        asName,
        anyOptions])]⟩,
  ⟨"apply", [], "apply <model> [AS <alias>]",
    seq [value "model" .name, optional asName, anyOptions]⟩]

end Registry

end SplQuery
