import SplQuery.Kind.Word

/-!
# Kinds of lexemes and shapes of tree nodes

A query is cut into lexemes, each of a `Kind`, and the tree over them has inner nodes, each of a
`Shape`. A `Label` is either; it is what a printed tree shows and what a `LabelSet` holds. Labels
stand in one fixed order (`Label.all`): lexeme kinds, the `error` shape, then the other shapes.
-/

namespace SplQuery

/-- The kind of a lexeme. -/
inductive Kind where
  | whitespace | comment | notEquals | doubleEquals | lessEquals | greaterEquals | equals
  | lessThan | greaterThan | plus | minus | multiply | divide | modulo | dot | pipe | comma
  | lparen | rparen | lbracket | rbracket
  /-- a word that begins a stage -/
  | command (word : CommandWord)
  /-- a word that divides a stage -/
  | clause (word : ClauseWord)
  | stringLiteral | timeModifier | numberLiteral | booleanLiteral | macroCall | wildcardField
  | identifier | garbage
  deriving DecidableEq, Repr

/-- The shape of an inner node of the tree. `error` holds what recovery skipped. -/
inductive Shape where
  | error | root | pipeline | subsearch | searchExpr | searchOr | searchNot | searchGroup
  | searchComparison | searchIn | searchTerm | searchMacro | searchValue | binaryExpr | unaryExpr
  | parenExpr | callExpr | argList | inList | fieldRef | literal | optionArg | optionValue
  | fieldList | fieldItem | aliasedField | byClause | overClause | whereClause | fromClause
  | intoClause | assignment | aggregation | renamePair | sortField | fieldCall | outputClause
  | replacePair | argument | searchCommand | whereCommand | evalCommand | fieldformatCommand
  | statsCommand | tstatsCommand | renameCommand | rexCommand | regexCommand | lookupCommand
  | inputlookupCommand | tableCommand | fieldsCommand | dedupCommand | sortCommand | headCommand
  | topCommand | convertCommand | replaceCommand | strcatCommand | trendlineCommand
  | returnCommand | fitCommand | foreachCommand | keywordCommand | genericCommand
  deriving DecidableEq, Repr

/-- What a tree is labelled with: a kind at a leaf, a shape at a node. -/
inductive Label where
  | leaf (kind : Kind)
  | node (shape : Shape)
  deriving DecidableEq, Repr

namespace CommandWord

/-- The word's name as a label: its spelling with a capital first letter. -/
def name (w : CommandWord) : String := w.spelling.capitalize

end CommandWord

namespace ClauseWord

/-- The word's name as a label: its spelling with a capital first letter. -/
def name (w : ClauseWord) : String := w.spelling.capitalize

end ClauseWord

namespace Kind

/-- The name under which the kind is printed. -/
def name : Kind → String
  | .whitespace => "Whitespace"
  | .comment => "Comment"
  | .notEquals => "NotEquals"
  | .doubleEquals => "DoubleEquals"
  | .lessEquals => "LessEquals"
  | .greaterEquals => "GreaterEquals"
  | .equals => "Equals"
  | .lessThan => "LessThan"
  | .greaterThan => "GreaterThan"
  | .plus => "Plus"
  | .minus => "Minus"
  | .multiply => "Multiply"
  | .divide => "Divide"
  | .modulo => "Modulo"
  | .dot => "Dot"
  | .pipe => "Pipe"
  | .comma => "Comma"
  | .lparen => "LParen"
  | .rparen => "RParen"
  | .lbracket => "LBracket"
  | .rbracket => "RBracket"
  | .command w => w.name
  | .clause w => w.name
  | .stringLiteral => "StringLiteral"
  | .timeModifier => "TimeModifier"
  | .numberLiteral => "NumberLiteral"
  | .booleanLiteral => "BooleanLiteral"
  | .macroCall => "MacroCall"
  | .wildcardField => "WildcardField"
  | .identifier => "Identifier"
  | .garbage => "Garbage"

/-- Every kind, in label order. -/
def all : List Kind :=
  ([.whitespace, .comment, .notEquals, .doubleEquals, .lessEquals, .greaterEquals, .equals,
    .lessThan, .greaterThan, .plus, .minus, .multiply, .divide, .modulo, .dot, .pipe, .comma,
    .lparen, .rparen, .lbracket, .rbracket] : List Kind) ++
  CommandWord.all.map Kind.command ++ ClauseWord.all.map Kind.clause ++
  ([.stringLiteral, .timeModifier, .numberLiteral, .booleanLiteral, .macroCall, .wildcardField,
    .identifier, .garbage] : List Kind)

/-- White space, comments and garbage: what may stand anywhere without a meaning. Garbage counts,
so that a bad character never changes how its neighbours parse. -/
def isTrivia : Kind → Bool
  | .whitespace | .comment | .garbage => true
  | _ => false

/-- A reserved word of either sort. -/
def isKeyword : Kind → Bool
  | .command _ | .clause _ => true
  | _ => false

/-- What may stand as a name: an identifier or any reserved word. -/
def isWord : Kind → Bool
  | .identifier | .command _ | .clause _ => true
  | _ => false

/-- A literal value of the expression language. -/
def isLiteral : Kind → Bool
  | .stringLiteral | .numberLiteral | .timeModifier | .booleanLiteral => true
  | _ => false

/-- An operator that compares a field with a value. -/
def isComparison : Kind → Bool
  | .equals | .doubleEquals | .notEquals | .lessThan | .lessEquals | .greaterThan
  | .greaterEquals => true
  | _ => false

/-- What joins into one value when written without a space between: `web-01`, `10.0.0.1`,
`/services/server/info`. -/
def isGlue : Kind → Bool
  | .numberLiteral | .timeModifier | .booleanLiteral | .stringLiteral | .wildcardField
  | .macroCall | .multiply | .minus | .plus | .dot | .divide | .modulo => true
  | k => k.isWord

/-- A clause word that ends a list of fields. -/
def endsFieldList : Kind → Bool
  | .clause .byWord | .clause .groupby | .clause .as | .clause .over | .clause .output
  | .clause .outputnew | .clause .sortby | .clause .fromWord | .clause .into | .clause .withWord
  | .clause .inWord => true
  | _ => false

/-- A binary operator of expressions. -/
def isInfix : Kind → Bool
  | .clause .or | .clause .xor | .clause .and | .clause .like | .clause .inWord
  | .plus | .minus | .dot | .multiply | .divide | .modulo => true
  | k => k.isComparison

/-- Whether a field name may start with a lexeme of this kind. -/
def startsField (k : Kind) : Bool :=
  (k.isWord && !k.endsFieldList) || k matches .wildcardField | .multiply | .stringLiteral

/-- Whether a field name may go on with a lexeme of this kind, written without a space. -/
def continuesField (k : Kind) : Bool :=
  k.isWord || k matches .numberLiteral | .wildcardField | .multiply | .dot | .minus

/-- Whether an aggregation may start with a lexeme of this kind. -/
def startsAggregation (k : Kind) : Bool := k matches .identifier | .command _

end Kind

namespace Shape

/-- The name under which the shape is printed. -/
def name : Shape → String
  | .error => "Error"
  | .root => "Root"
  | .pipeline => "Pipeline"
  | .subsearch => "Subsearch"
  | .searchExpr => "SearchExpr"
  | .searchOr => "SearchOr"
  | .searchNot => "SearchNot"
  | .searchGroup => "SearchGroup"
  | .searchComparison => "SearchComparison"
  | .searchIn => "SearchIn"
  | .searchTerm => "SearchTerm"
  | .searchMacro => "SearchMacro"
  | .searchValue => "SearchValue"
  | .binaryExpr => "BinaryExpr"
  | .unaryExpr => "UnaryExpr"
  | .parenExpr => "ParenExpr"
  | .callExpr => "CallExpr"
  | .argList => "ArgList"
  | .inList => "InList"
  | .fieldRef => "FieldRef"
  | .literal => "Literal"
  | .optionArg => "OptionArg"
  | .optionValue => "OptionValue"
  | .fieldList => "FieldList"
  | .fieldItem => "FieldItem"
  | .aliasedField => "AliasedField"
  | .byClause => "ByClause"
  | .overClause => "OverClause"
  | .whereClause => "WhereClause"
  | .fromClause => "FromClause"
  | .intoClause => "IntoClause"
  | .assignment => "Assignment"
  | .aggregation => "Aggregation"
  | .renamePair => "RenamePair"
  | .sortField => "SortField"
  | .fieldCall => "FieldCall"
  | .outputClause => "OutputClause"
  | .replacePair => "ReplacePair"
  | .argument => "Argument"
  | .searchCommand => "SearchCommand"
  | .whereCommand => "WhereCommand"
  | .evalCommand => "EvalCommand"
  | .fieldformatCommand => "FieldformatCommand"
  | .statsCommand => "StatsCommand"
  | .tstatsCommand => "TstatsCommand"
  | .renameCommand => "RenameCommand"
  | .rexCommand => "RexCommand"
  | .regexCommand => "RegexCommand"
  | .lookupCommand => "LookupCommand"
  | .inputlookupCommand => "InputlookupCommand"
  | .tableCommand => "TableCommand"
  | .fieldsCommand => "FieldsCommand"
  | .dedupCommand => "DedupCommand"
  | .sortCommand => "SortCommand"
  | .headCommand => "HeadCommand"
  | .topCommand => "TopCommand"
  | .convertCommand => "ConvertCommand"
  | .replaceCommand => "ReplaceCommand"
  | .strcatCommand => "StrcatCommand"
  | .trendlineCommand => "TrendlineCommand"
  | .returnCommand => "ReturnCommand"
  | .fitCommand => "FitCommand"
  | .foreachCommand => "ForeachCommand"
  | .keywordCommand => "KeywordCommand"
  | .genericCommand => "GenericCommand"

/-- Every shape, in label order. -/
def all : List Shape := [
  .error, .root, .pipeline, .subsearch, .searchExpr, .searchOr, .searchNot, .searchGroup,
  .searchComparison, .searchIn, .searchTerm, .searchMacro, .searchValue, .binaryExpr, .unaryExpr,
  .parenExpr, .callExpr, .argList, .inList, .fieldRef, .literal, .optionArg, .optionValue,
  .fieldList, .fieldItem, .aliasedField, .byClause, .overClause, .whereClause, .fromClause,
  .intoClause, .assignment, .aggregation, .renamePair, .sortField, .fieldCall, .outputClause,
  .replacePair, .argument, .searchCommand, .whereCommand, .evalCommand, .fieldformatCommand,
  .statsCommand, .tstatsCommand, .renameCommand, .rexCommand, .regexCommand, .lookupCommand,
  .inputlookupCommand, .tableCommand, .fieldsCommand, .dedupCommand, .sortCommand, .headCommand,
  .topCommand, .convertCommand, .replaceCommand, .strcatCommand, .trendlineCommand,
  .returnCommand, .fitCommand, .foreachCommand, .keywordCommand, .genericCommand]

end Shape

namespace Label

/-- The name under which the label is printed. -/
def name : Label → String
  | .leaf k => k.name
  | .node s => s.name

/-- Every label, in its fixed order. -/
def all : List Label := Kind.all.map .leaf ++ Shape.all.map .node

/-- The position of a label in `all`. -/
def index (l : Label) : Nat := all.idxOf l

/-- The label with a given name. -/
def ofName? (name : String) : Option Label := all.find? (·.name == name)

end Label

end SplQuery
