import SplQuery.Catalog.Basic

/-!
# The function table

Every function that is known by name, in the order in which listings show them.
-/

namespace SplQuery.Catalog

/-- A parameter that every call passes. -/
def req (name : String) : FunctionParam := ⟨name, false, false⟩

/-- A parameter that a call may leave out. -/
def opt (name : String) : FunctionParam := ⟨name, true, false⟩

/-- Any number of further arguments. -/
def rest (name : String) : FunctionParam := ⟨name, true, true⟩

/-- One value. -/
def oneValue : List FunctionParam := [req "x"]

/-- One field. -/
def oneField : List FunctionParam := [req "field"]

/-- One field, or none. -/
def maybeField : List FunctionParam := [opt "field"]

/-- One value or more. -/
def someValues : List FunctionParam := [req "x", rest "more"]

/-- The function table. -/
def functions : List FunctionInfo := [
  ⟨"count", .aggregate, .number, maybeField, .stats, "Number of occurrences"⟩,
  ⟨"c", .aggregate, .number, maybeField, .stats, "Shorthand for count"⟩,
  ⟨"dc", .aggregate, .number, oneField, .stats, "Distinct count"⟩,
  ⟨"distinct_count", .aggregate, .number, oneField, .stats, "Distinct count"⟩,
  ⟨"estdc", .aggregate, .number, oneField, .stats, "Estimated distinct count"⟩,
  ⟨"estdc_error", .aggregate, .number, oneField, .stats, "Distinct count error estimate"⟩,
  ⟨"sum", .aggregate, .number, oneField, .stats, "Sum of values"⟩,
  ⟨"sumsq", .aggregate, .number, oneField, .stats, "Sum of squares"⟩,
  ⟨"avg", .aggregate, .number, oneField, .stats, "Arithmetic mean"⟩,
  ⟨"mean", .aggregate, .number, oneField, .stats, "Arithmetic mean"⟩,
  ⟨"median", .aggregate, .number, oneField, .stats, "Middle value"⟩,
  ⟨"mode", .aggregate, .any, oneField, .stats, "Most frequent value"⟩,
  ⟨"max", .statistical, .any, someValues, .both, "Largest value"⟩,
  ⟨"min", .statistical, .any, someValues, .both, "Smallest value"⟩,
  ⟨"range", .aggregate, .number, oneField, .stats, "Difference between max and min"⟩,
  ⟨"stdev", .aggregate, .number, oneField, .stats, "Sample standard deviation"⟩,
  ⟨"stdevp", .aggregate, .number, oneField, .stats, "Population standard deviation"⟩,
  ⟨"var", .aggregate, .number, oneField, .stats, "Sample variance"⟩,
  ⟨"varp", .aggregate, .number, oneField, .stats, "Population variance"⟩,
  ⟨"perc", .aggregate, .number, oneField, .stats, "Percentile, written pNN or percNN"⟩,
  ⟨"exactperc", .aggregate, .number, oneField, .stats, "Exact percentile"⟩,
  ⟨"upperperc", .aggregate, .number, oneField, .stats, "Upper bound percentile"⟩,
  ⟨"values", .aggregate, .multivalue, oneField, .stats, "Distinct values, sorted"⟩,
  ⟨"list", .aggregate, .multivalue, oneField, .stats, "All values in order"⟩,
  ⟨"sparkline", .aggregate, .any, [req "aggregation", opt "span"], .stats, "Inline trend chart"⟩,
  ⟨"per_second", .aggregate, .number, oneField, .stats, "Rate per second"⟩,
  ⟨"per_minute", .aggregate, .number, oneField, .stats, "Rate per minute"⟩,
  ⟨"per_hour", .aggregate, .number, oneField, .stats, "Rate per hour"⟩,
  ⟨"per_day", .aggregate, .number, oneField, .stats, "Rate per day"⟩,
  ⟨"rate", .aggregate, .number, oneField, .stats, "Per-second rate of a counter"⟩,
  ⟨"first", .eventOrder, .any, oneField, .stats, "First seen value"⟩,
  ⟨"last", .eventOrder, .any, oneField, .stats, "Last seen value"⟩,
  ⟨"earliest", .eventOrder, .any, oneField, .stats, "Chronologically earliest value"⟩,
  ⟨"latest", .eventOrder, .any, oneField, .stats, "Chronologically latest value"⟩,
  ⟨"earliest_time", .eventOrder, .number, oneField, .stats, "Time of the earliest value"⟩,
  ⟨"latest_time", .eventOrder, .number, oneField, .stats, "Time of the latest value"⟩,
  ⟨"if", .comparison, .any, [req "condition", req "then", req "else"], .eval, "Conditional value"⟩,
  ⟨"case", .comparison, .any, [req "condition", req "value", rest "more"], .eval,
    "First value whose condition holds"⟩,
  ⟨"coalesce", .comparison, .any, someValues, .eval, "First non-null argument"⟩,
  ⟨"nullif", .comparison, .any, [req "x", req "y"], .eval, "Null when both arguments are equal"⟩,
  ⟨"validate", .comparison, .any, [req "condition", req "value", rest "more"], .eval,
    "First value whose condition fails"⟩,
  ⟨"like", .comparison, .boolean, [req "text", req "pattern"], .eval, "SQL LIKE match"⟩,
  ⟨"match", .comparison, .boolean, [req "text", req "regex"], .eval, "Regular expression match"⟩,
  ⟨"searchmatch", .comparison, .boolean, [req "search"], .eval, "Event matches a search string"⟩,
  ⟨"cidrmatch", .comparison, .boolean, [req "cidr", req "ip"], .eval, "IP address within subnet"⟩,
  ⟨"in", .comparison, .boolean, [req "field", req "value", rest "more"], .eval,
    "Value is one of the list"⟩,
  ⟨"true", .comparison, .boolean, [], .eval, "Boolean true"⟩,
  ⟨"false", .comparison, .boolean, [], .eval, "Boolean false"⟩,
  ⟨"null", .comparison, .any, [], .eval, "Null value"⟩,
  ⟨"tonumber", .conversion, .number, [req "text", opt "base"], .eval, "Parse a number"⟩,
  ⟨"tostring", .conversion, .string, [req "x", opt "format"], .eval, "Format as a string"⟩,
  ⟨"printf", .conversion, .string, [req "format", rest "args"], .eval, "Formatted string"⟩,
  ⟨"ipmask", .conversion, .string, [req "mask", req "ip"], .eval, "Mask an IP address"⟩,
  ⟨"auto", .conversion, .any, oneField, .eval, "Automatic numeric conversion"⟩,
  ⟨"num", .conversion, .number, oneField, .eval, "Numeric conversion"⟩,
  ⟨"dur2sec", .conversion, .number, oneField, .eval, "Duration to seconds"⟩,
  ⟨"mktime", .conversion, .number, oneField, .eval, "Human time to epoch"⟩,
  ⟨"ctime", .conversion, .string, oneField, .eval, "Epoch to human time"⟩,
  ⟨"memk", .conversion, .number, oneField, .eval, "Memory size to kilobytes"⟩,
  ⟨"rmcomma", .conversion, .number, oneField, .eval, "Remove commas from numbers"⟩,
  ⟨"rmunit", .conversion, .number, oneField, .eval, "Remove units from numbers"⟩,
  ⟨"none", .conversion, .any, oneField, .eval, "Exclude fields from conversion"⟩,
  ⟨"md5", .cryptographic, .string, oneValue, .eval, "MD5 digest"⟩,
  ⟨"sha1", .cryptographic, .string, oneValue, .eval, "SHA-1 digest"⟩,
  ⟨"sha256", .cryptographic, .string, oneValue, .eval, "SHA-256 digest"⟩,
  ⟨"sha512", .cryptographic, .string, oneValue, .eval, "SHA-512 digest"⟩,
  ⟨"now", .dateTime, .number, [], .eval, "Search start time"⟩,
  ⟨"time", .dateTime, .number, [], .eval, "Wall clock time"⟩,
  ⟨"relative_time", .dateTime, .number, [req "time", req "modifier"], .eval,
    "Apply a time modifier"⟩,
  ⟨"strftime", .dateTime, .string, [req "time", req "format"], .eval, "Format a timestamp"⟩,
  ⟨"strptime", .dateTime, .number, [req "text", req "format"], .eval, "Parse a timestamp"⟩,
  ⟨"isbool", .informational, .boolean, oneValue, .eval, "Value is boolean"⟩,
  ⟨"isint", .informational, .boolean, oneValue, .eval, "Value is an integer"⟩,
  ⟨"isnum", .informational, .boolean, oneValue, .eval, "Value is numeric"⟩,
  ⟨"isstr", .informational, .boolean, oneValue, .eval, "Value is a string"⟩,
  ⟨"isnull", .informational, .boolean, oneValue, .eval, "Value is null"⟩,
  ⟨"isnotnull", .informational, .boolean, oneValue, .eval, "Value is not null"⟩,
  ⟨"typeof", .informational, .string, oneValue, .eval, "Type name of a value"⟩,
  ⟨"json_object", .json, .json, [rest "pairs"], .eval, "Build a JSON object"⟩,
  ⟨"json_array", .json, .json, [rest "values"], .eval, "Build a JSON array"⟩,
  ⟨"json_extract", .json, .any, [req "json", rest "paths"], .eval, "Values at JSON paths"⟩,
  ⟨"json_keys", .json, .json, [req "json"], .eval, "Keys of a JSON object"⟩,
  ⟨"json_set", .json, .json, [req "json", req "path", req "value", rest "more"], .eval,
    "Set values in a JSON object"⟩,
  ⟨"json_valid", .json, .boolean, [req "json"], .eval, "Text is valid JSON"⟩,
  ⟨"abs", .math, .number, oneValue, .eval, "Absolute value"⟩,
  ⟨"ceiling", .math, .number, oneValue, .eval, "Round up"⟩,
  ⟨"ceil", .math, .number, oneValue, .eval, "Round up"⟩,
  ⟨"floor", .math, .number, oneValue, .eval, "Round down"⟩,
  ⟨"round", .math, .number, [req "x", opt "digits"], .eval, "Round to digits"⟩,
  ⟨"sigfig", .math, .number, oneValue, .eval, "Round to significant figures"⟩,
  ⟨"exact", .math, .number, oneValue, .eval, "Full precision arithmetic"⟩,
  ⟨"exp", .math, .number, oneValue, .eval, "e raised to x"⟩,
  ⟨"ln", .math, .number, oneValue, .eval, "Natural logarithm"⟩,
  ⟨"log", .math, .number, [req "x", opt "base"], .eval, "Logarithm"⟩,
  ⟨"pow", .math, .number, [req "x", req "y"], .eval, "x raised to y"⟩,
  ⟨"sqrt", .math, .number, oneValue, .eval, "Square root"⟩,
  ⟨"pi", .math, .number, [], .eval, "The constant pi"⟩,
  ⟨"random", .math, .number, [], .eval, "Pseudo-random integer"⟩,
  ⟨"mvappend", .multivalue, .multivalue, someValues, .eval, "Concatenate values into a multivalue"⟩,
  ⟨"mvcount", .multivalue, .number, oneField, .eval, "Number of values"⟩,
  ⟨"mvdedup", .multivalue, .multivalue, oneField, .eval, "Remove duplicate values"⟩,
  ⟨"mvfilter", .multivalue, .multivalue, [req "predicate"], .eval, "Values matching a predicate"⟩,
  ⟨"mvfind", .multivalue, .number, [req "field", req "regex"], .eval, "Index of the first match"⟩,
  ⟨"mvindex", .multivalue, .any, [req "field", req "start", opt "end"], .eval, "Values by index"⟩,
  ⟨"mvjoin", .multivalue, .string, [req "field", req "delimiter"], .eval,
    "Join values with a delimiter"⟩,
  ⟨"mvmap", .multivalue, .multivalue, [req "field", req "expression"], .eval,
    "Map an expression over values"⟩,
  ⟨"mvrange", .multivalue, .multivalue, [req "start", req "end", opt "step"], .eval,
    "Numeric range"⟩,
  ⟨"mvsort", .multivalue, .multivalue, oneField, .eval, "Sort values lexicographically"⟩,
  ⟨"mvzip", .multivalue, .multivalue, [req "x", req "y", opt "delimiter"], .eval,
    "Pairwise join of two multivalues"⟩,
  ⟨"split", .multivalue, .multivalue, [req "text", req "delimiter"], .eval,
    "Split text into values"⟩,
  ⟨"commands", .multivalue, .multivalue, [req "search"], .eval, "Commands used in a search string"⟩,
  ⟨"len", .text, .number, oneValue, .eval, "Character count"⟩,
  ⟨"lower", .text, .string, oneValue, .eval, "Lowercase"⟩,
  ⟨"upper", .text, .string, oneValue, .eval, "Uppercase"⟩,
  ⟨"ltrim", .text, .string, [req "text", opt "chars"], .eval, "Trim from the left"⟩,
  ⟨"rtrim", .text, .string, [req "text", opt "chars"], .eval, "Trim from the right"⟩,
  ⟨"trim", .text, .string, [req "text", opt "chars"], .eval, "Trim both ends"⟩,
  ⟨"replace", .text, .string, [req "text", req "regex", req "replacement"], .eval,
    "Regex substitution"⟩,
  ⟨"substr", .text, .string, [req "text", req "start", opt "length"], .eval, "Substring"⟩,
  ⟨"spath", .text, .any, [req "json", req "path"], .eval, "Value at a JSON or XML path"⟩,
  ⟨"urldecode", .text, .string, oneValue, .eval, "Decode a URL"⟩,
  ⟨"acos", .trigonometry, .number, oneValue, .eval, "Arc cosine"⟩,
  ⟨"acosh", .trigonometry, .number, oneValue, .eval, "Hyperbolic arc cosine"⟩,
  ⟨"asin", .trigonometry, .number, oneValue, .eval, "Arc sine"⟩,
  ⟨"asinh", .trigonometry, .number, oneValue, .eval, "Hyperbolic arc sine"⟩,
  ⟨"atan", .trigonometry, .number, oneValue, .eval, "Arc tangent"⟩,
  ⟨"atan2", .trigonometry, .number, [req "y", req "x"], .eval, "Two-argument arc tangent"⟩,
  ⟨"atanh", .trigonometry, .number, oneValue, .eval, "Hyperbolic arc tangent"⟩,
  ⟨"cos", .trigonometry, .number, oneValue, .eval, "Cosine"⟩,
  ⟨"cosh", .trigonometry, .number, oneValue, .eval, "Hyperbolic cosine"⟩,
  ⟨"hypot", .trigonometry, .number, [req "x", req "y"], .eval, "Hypotenuse"⟩,
  ⟨"sin", .trigonometry, .number, oneValue, .eval, "Sine"⟩,
  ⟨"sinh", .trigonometry, .number, oneValue, .eval, "Hyperbolic sine"⟩,
  ⟨"tan", .trigonometry, .number, oneValue, .eval, "Tangent"⟩,
  ⟨"tanh", .trigonometry, .number, oneValue, .eval, "Hyperbolic tangent"⟩]

end SplQuery.Catalog
