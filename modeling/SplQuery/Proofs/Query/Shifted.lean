import Mathlib.Data.Option.Basic
import SplQuery.Meaning.Pipeline
import SplQuery.Proofs.Query.Places
import SplQuery.Proofs.Reading.Meaning
import SplQuery.Proofs.Tree.Places

/-!
# What a tree means further on

The meaning of a tree says where everything stands, and nothing else in it depends on places: the
meaning of a tree that stands further on is the meaning of the tree with every stretch shifted.

* `Placed.text_shift`, `Placed.nodesOf_shift`, … — views of a tree.
* `Meaning.command?_shift` — commands, one after another.
* `Placed.meaning_shift` — trees.
-/

namespace SplQuery

variable (n : Nat)

/-! ## Views -/

/-- The lexeme so many bytes further on. -/
def Lexeme.shift (l : Lexeme) : Lexeme := ⟨l.kind, l.start + n, l.text⟩

@[simp] theorem Lexeme.kind_shift (l : Lexeme) : (l.shift n).kind = l.kind := rfl

@[simp] theorem Lexeme.text_shift (l : Lexeme) : (l.shift n).text = l.text := by rw [shift]

@[simp] theorem Lexeme.span_shift (l : Lexeme) : (l.shift n).span = l.span.shift n := by
  rw [Lexeme.span, Lexeme.span, Lexeme.stop, Lexeme.stop, shift, Nat.add_right_comm]
  rfl

namespace Placed

variable (p : Placed)

@[simp] theorem children_shift : (p.shift n).children = p.children.map (shift n) := by
  cases p with
  | leaf => rw [shift]; rfl
  | node => rw [shift, children, children, shiftAll_eq_map]

@[simp] theorem shape?_shift : (p.shift n).shape? = p.shape? := by
  cases p <;> rw [shift] <;> rfl

@[simp] theorem isNode_shift (shape : Shape) : (p.shift n).isNode shape = p.isNode shape := by
  rw [isNode, isNode, shape?_shift]

@[simp] theorem nodesOf_shift (shape : Shape) :
    (p.shift n).nodesOf shape = (p.nodesOf shape).map (shift n) := by
  simp [nodesOf, List.filter_map, Function.comp_def]

@[simp] theorem node?_shift (shape : Shape) :
    (p.shift n).node? shape = (p.node? shape).map (shift n) := by
  simp [node?, List.find?_map]

@[simp] theorem childNodes_shift : (p.shift n).childNodes = p.childNodes.map (shift n) := by
  simp [childNodes, List.filter_map, Function.comp_def]

@[simp] theorem lexeme?_shift : (p.shift n).lexeme? = p.lexeme?.map (·.shift n) := by
  cases p with
  | leaf span kind text =>
    rw [shift, lexeme?, lexeme?]
    split <;> rfl
  | node => rw [shift]; rfl

@[simp] theorem lexemes_shift : (p.shift n).lexemes = p.lexemes.map (·.shift n) := by
  simp [lexemes, List.filterMap_map, List.map_filterMap]

@[simp] theorem firstLexeme?_shift : (p.shift n).firstLexeme? = p.firstLexeme?.map (·.shift n) := by
  simp [firstLexeme?]

@[simp] theorem lexemeOf?_shift (kind : Kind) :
    (p.shift n).lexemeOf? kind = (p.lexemeOf? kind).map (·.shift n) := by
  simp [lexemeOf?, List.find?_map, Function.comp_def]

@[simp] theorem leaves_shift : (p.shift n).leaves = p.leaves := by
  induction p using Placed.rec
    (motive_2 := fun ps => leavesOfAll (shiftAll n ps) = leavesOfAll ps) with
  | leaf => rw [shift, leaves, leaves]
  | node span core? shape children ih => rw [shift, leaves, leaves, ih]
  | nil => rfl
  | cons p ps ihp ihps => rw [shiftAll, leavesOfAll, leavesOfAll, ihp, ihps]

@[simp] theorem text_shift : (p.shift n).text = p.text := by
  simp [text]

@[simp] theorem value_shift : (p.shift n).value = p.value := by
  simp [value]

@[simp] theorem commandWord?_shift : (p.shift n).commandWord? = p.commandWord? := by
  simp [commandWord?, Option.bind_map, Function.comp_def]

@[simp] theorem fieldRef_shift : (p.shift n).fieldRef = p.fieldRef.relocate (·.shift n) := by
  simp [fieldRef, FieldRef.relocate]

@[simp] theorem option?_shift : (p.shift n).option? = p.option? := by
  simp [option?, Function.comp_def, Option.elim_map]

@[simp] theorem options_shift : (p.shift n).options = p.options := by
  simp [options, List.filterMap_map]

@[simp] theorem listed_shift : (p.shift n).listed = p.listed.map (shift n) := by
  simp [listed, List.flatMap_map, List.map_flatMap]

@[simp] theorem listedFields_shift :
    (p.shift n).listedFields = p.listedFields.map (·.relocate (·.shift n)) := by
  simp [listedFields]

@[simp] theorem clauseItems_shift : (p.shift n).clauseItems = p.clauseItems.map (shift n) := by
  rw [clauseItems, node?_shift, Option.elim_map, clauseItems]
  cases p.node? .fieldList <;> simp

@[simp] theorem byFields_shift :
    (p.shift n).byFields = p.byFields.map (·.relocate (·.shift n)) := by
  rw [byFields, node?_shift, Option.elim_map, byFields]
  cases p.node? .byClause <;> simp

@[simp] theorem leadingCount?_shift : (p.shift n).leadingCount? = p.leadingCount? := by
  simp [leadingCount?, Option.bind_map]

@[simp] theorem firstArgument?_shift : (p.shift n).firstArgument? = p.firstArgument? := by
  simp [firstArgument?, Function.comp_def]

@[simp] theorem renamedFields_shift : (p.shift n).renamedFields = p.renamedFields := by
  simp [renamedFields, List.filter_map, List.filterMap_map, Function.comp_def]

@[simp] theorem calledField?_shift : (p.shift n).calledField? = p.calledField? := by
  simp [calledField?, Function.comp_def]

@[simp] theorem calledName?_shift : (p.shift n).calledName? = p.calledName? := by
  simp [calledName?, Function.comp_def]

@[simp] theorem callAlias?_shift : (p.shift n).callAlias? = p.callAlias? := by
  simp [callAlias?, Option.bind_map, Function.comp_def]

end Placed

/-! ## Meanings -/

/-- The meaning of a node so many bytes further on. -/
def Meaning.shift : Meaning → Meaning
  | .nothing => .nothing
  | .expression e => .expression (e.relocate (·.shift n))
  | .expressions es => .expressions (es.map (·.relocate (·.shift n)))
  | .term t => .term (t.relocate (·.shift n))
  | .search s => .search (s.relocate (·.shift n))
  | .assignment a => .assignment (a.relocate (·.shift n))
  | .aggregation a => .aggregation (a.relocate (·.shift n))
  | .command c => .command (c.relocate (·.shift n))
  | .pipeline p => .pipeline (p.relocate (·.shift n))

/-- The part so many bytes further on. -/
def Part.shift (p : Part) : Part := ⟨p.tree.shift n, p.meaning.shift n⟩

namespace Part

variable (p : Part)

@[simp] theorem tree_shift : (p.shift n).tree = p.tree.shift n := by rw [shift]

@[simp] theorem expression?_shift :
    (p.shift n).expression? = p.expression?.map (·.relocate (·.shift n)) := by
  rw [expression?, expression?, shift]
  cases p.meaning <;> rfl

@[simp] theorem expressions_shift :
    (p.shift n).expressions = p.expressions.map (·.relocate (·.shift n)) := by
  rw [expressions, expressions, shift]
  cases p.meaning <;> rfl

@[simp] theorem pipeline?_shift :
    (p.shift n).pipeline? = p.pipeline?.map (·.relocate (·.shift n)) := by
  rw [pipeline?, pipeline?, shift]
  cases p.meaning <;> rfl

@[simp] theorem term?_shift : (p.shift n).term? = p.term?.map (·.relocate (·.shift n)) := by
  rw [term?, term?, shift]
  cases p.meaning <;> simp [Meaning.shift, Term.relocate]

@[simp] theorem search?_shift : (p.shift n).search? = p.search?.map (·.relocate (·.shift n)) := by
  rw [search?, search?, shift]
  cases p.meaning <;> rfl

@[simp] theorem assignment?_shift :
    (p.shift n).assignment? = p.assignment?.map (·.relocate (·.shift n)) := by
  rw [assignment?, assignment?, shift]
  cases p.meaning <;> rfl

@[simp] theorem aggregation?_shift :
    (p.shift n).aggregation? = p.aggregation?.map (·.relocate (·.shift n)) := by
  rw [aggregation?, aggregation?, shift]
  cases p.meaning <;> rfl

@[simp] theorem stage?_shift : (p.shift n).stage? = p.stage?.map (·.relocate (·.shift n)) := by
  rw [stage?, stage?, shift]
  cases p.meaning <;> simp [Meaning.shift, Stage.relocate]

end Part

namespace Meaning

open Placed

variable (node : Placed) (parts : List Part)

/-! ### Parts of a node -/

@[simp] theorem part?_shift (shape : Shape) :
    part? shape (parts.map (·.shift n)) = (part? shape parts).map (·.shift n) := by
  simp [part?, List.find?_map]

@[simp] theorem expressionParts_shift :
    expressionParts (parts.map (·.shift n)) = (expressionParts parts).map (·.shift n) := by
  simp [expressionParts, List.filter_map, Function.comp_def]

@[simp] theorem firstExpression?_shift : firstExpression? (parts.map (·.shift n)) =
    (firstExpression? parts).map (·.relocate (·.shift n)) := by
  simp [firstExpression?, Option.bind_map, Option.map_bind]

@[simp] theorem aggregations_shift :
    aggregations (parts.map (·.shift n)) = (aggregations parts).map (·.relocate (·.shift n)) := by
  simp [aggregations, List.filterMap_map, List.map_filterMap]

@[simp] theorem condition?_shift :
    condition? (parts.map (·.shift n)) = (condition? parts).map (·.relocate (·.shift n)) := by
  simp [condition?, Option.bind_map, Option.map_bind]

/-! ### Expressions -/

@[simp] theorem operatorName_shift (l : Lexeme) : operatorName (l.shift n) = operatorName l := by
  rw [operatorName, operatorName, Lexeme.kind_shift, Lexeme.text_shift]

theorem binary_shift : binary (node.shift n) (parts.map (·.shift n)) =
    (binary node parts).map (·.relocate (·.shift n)) := by
  have hoperand (i : Nat) :
      (expressionParts (parts.map (·.shift n)))[i]?.bind (·.expression?) =
        ((expressionParts parts)[i]?.bind (·.expression?)).map (·.relocate (·.shift n)) := by
    simp [Option.bind_map, Option.map_bind]
  simp only [binary, firstLexeme?_shift, hoperand]
  cases node.firstLexeme? with
  | none => rfl
  | some op =>
    generalize (expressionParts parts)[0]?.bind (·.expression?) = left,
      (expressionParts parts)[1]?.bind (·.expression?) = right
    cases left <;> cases right <;> simp [Expression.relocate]

theorem unary_shift : unary (node.shift n) (parts.map (·.shift n)) =
    (unary node parts).map (·.relocate (·.shift n)) := by
  simp [unary, Option.bind_map, Option.map_bind, Function.comp_def, Expression.relocate]

@[simp] theorem arguments_shift : arguments (parts.map (·.shift n)) =
    (arguments parts).map (·.relocate (·.shift n)) := by
  simp [arguments, List.filterMap_map, List.map_filterMap]

theorem call_shift : call (node.shift n) (parts.map (·.shift n)) =
    (call node parts).map (·.relocate (·.shift n)) := by
  have hlist : ((part? .argList parts).map (·.shift n)).elim [] (·.expressions) =
      ((part? .argList parts).elim [] (·.expressions)).map (·.relocate (·.shift n)) := by
    cases part? .argList parts <;> simp
  simp [call, Option.bind_map, Option.map_bind, Expression.relocate,
    Expression.relocateAll_eq_map, hlist]

theorem field_shift : field (node.shift n) = (field node).map (·.relocate (·.shift n)) := by
  simp [field, Function.comp_def, Expression.relocate, FieldRef.relocate]

theorem literalOf_shift (l : Lexeme) :
    literalOf (l.shift n) = (literalOf l).relocate (·.shift n) := by
  rw [literalOf, literalOf, Lexeme.kind_shift]
  split <;> simp [Expression.relocate]

theorem expression?_shift (shape : Shape) :
    expression? (node.shift n) (parts.map (·.shift n)) shape =
      (expression? node parts shape).map (·.relocate (·.shift n)) := by
  cases shape with
  | binaryExpr => exact binary_shift n node parts
  | unaryExpr => exact unary_shift n node parts
  | parenExpr => exact firstExpression?_shift n parts
  | callExpr => exact call_shift n node parts
  | inList => simp [expression?, Expression.relocate, Expression.relocateAll_eq_map]
  | fieldRef => exact field_shift n node
  | literal => simp [expression?, literalOf_shift, Function.comp_def]
  | _ => rfl

theorem assignment?_shift : assignment? (node.shift n) (parts.map (·.shift n)) =
    (assignment? node parts).map (·.relocate (·.shift n)) := by
  simp [assignment?, Option.bind_map, Option.map_bind, Assignment.relocate]

theorem aggregation?_shift : aggregation? (node.shift n) (parts.map (·.shift n)) =
    (aggregation? node parts).map (·.relocate (·.shift n)) := by
  have hlist : ((part? .argList parts).map (·.shift n)).elim [] (·.expressions) =
      ((part? .argList parts).elim [] (·.expressions)).map (·.relocate (·.shift n)) := by
    cases part? .argList parts <;> simp
  simp [aggregation?, Option.bind_map, Option.map_bind, Function.comp_def, Aggregation.relocate,
    hlist]

/-! ### Searches -/

@[simp] theorem quotedValue?_shift :
    quotedValue? (node.shift n) = (quotedValue? node).map (·.shift n) := by
  rw [quotedValue?, quotedValue?, lexemes_shift]
  rcases node.lexemes with _ | ⟨l, _ | ⟨m, ls⟩⟩
  · rfl
  · change (if l.kind = .stringLiteral then some (l.shift n) else none) =
      Option.map _ (if l.kind = .stringLiteral then some l else none)
    split <;> rfl
  · rfl

@[simp] theorem searchText_shift : searchText (node.shift n) = searchText node := by
  rw [searchText, searchText, quotedValue?_shift, text_shift]
  cases quotedValue? node <;> rfl

@[simp] theorem terms_shift :
    terms (parts.map (·.shift n)) = (terms parts).map (·.relocate (·.shift n)) := by
  simp [terms, List.filter_map, List.filterMap_map, List.map_filterMap, Function.comp_def]

theorem term?_shift (shape : Shape) : term? (node.shift n) (parts.map (·.shift n)) shape =
    (term? node parts shape).map (·.relocate (·.shift n)) := by
  cases shape with
  | searchOr => simp [term?, Term.relocate, Term.relocateAll_eq_map]
  | searchNot =>
    simp [term?, Term.relocate, List.find?_map, Option.bind_map, Option.map_bind, Function.comp_def]
  | searchGroup => simp [term?, Term.relocate, Term.relocateAll_eq_map]
  | searchComparison =>
    simp [term?, Term.relocate, List.find?_map, Option.bind_map, Option.map_bind, Option.elim_map,
      Function.comp_def]
  | searchIn =>
    rw [term?, term?, nodesOf_shift]
    cases node.nodesOf .searchValue <;> simp [Term.relocate, Function.comp_def]
  | searchTerm =>
    simp [term?, Term.relocate, Option.bind_map, Option.map_bind, Function.comp_def]
  | searchMacro =>
    simp [term?, Term.relocate, Option.bind_map, Option.map_bind, Function.comp_def]
  | _ => rfl

theorem searchOf_shift : searchOf (node.shift n) (parts.map (·.shift n)) =
    (searchOf node parts).relocate (·.shift n) := by
  simp [searchOf, Search.relocate, Term.relocateAll_eq_map]

/-! ### Commands -/

theorem searchCommand_shift : searchCommand (node.shift n) (parts.map (·.shift n)) =
    (searchCommand node parts).relocate (·.shift n) := by
  have hsearch : ((part? .searchExpr parts).map (·.shift n)).bind (·.search?) =
      ((part? .searchExpr parts).bind (·.search?)).map (·.relocate (·.shift n)) := by
    simp [Option.bind_map, Option.map_bind]
  rw [searchCommand, searchCommand, part?_shift, hsearch]
  cases (part? .searchExpr parts).bind (·.search?) <;>
    simp [Command.relocate, Search.relocate, Term.relocateAll]

theorem whereCommand_shift : whereCommand (parts.map (·.shift n)) =
    (whereCommand parts).relocate (·.shift n) := by
  simp [whereCommand, SimpleCommand.relocate]

theorem assignments_shift : assignments (parts.map (·.shift n)) =
    (assignments parts).map (·.relocate (·.shift n)) := by
  simp [assignments, List.filterMap_map, List.map_filterMap]

theorem statsCommand_shift : statsCommand (node.shift n) (parts.map (·.shift n)) =
    (statsCommand node parts).relocate (·.shift n) := by
  simp [statsCommand, SimpleCommand.relocate, Option.bind_map, Option.map_bind, Function.comp_def]

theorem source_shift (clause : Placed) : source (clause.shift n) = source clause := by
  rw [source, source, node?_shift]
  cases clause.node? .optionArg <;> simp [Function.comp_def]

theorem tstatsCommand_shift : tstatsCommand (node.shift n) (parts.map (·.shift n)) =
    (tstatsCommand node parts).relocate (·.shift n) := by
  simp [tstatsCommand, Command.relocate, Search.relocate?_eq_map, source_shift,
    Option.bind_map]

theorem topCommand_shift :
    topCommand (node.shift n) = (topCommand node).relocate (·.shift n) := by
  simp [topCommand, SimpleCommand.relocate]

theorem fitCommand_shift : fitCommand (node.shift n) = (fitCommand node).relocate (·.shift n) := by
  rw [fitCommand, fitCommand, node?_shift]
  cases node.node? .fromClause <;>
    simp [SimpleCommand.relocate, Option.bind_map, Function.comp_def]

theorem renameCommand_shift :
    renameCommand (node.shift n) = (renameCommand node).relocate (·.shift n) := by
  have hpair (p : Placed) :
      renaming? (p.shift n) = (renaming? p).map (·.relocate (·.shift n)) := by
    rw [renaming?, renaming?, nodesOf_shift]
    rcases p.nodesOf .fieldItem with _ | ⟨old, _ | ⟨new, rest⟩⟩ <;> simp [Renaming.relocate]
  simp [renameCommand, SimpleCommand.relocate, List.filterMap_map, List.map_filterMap, hpair]

theorem rexCommand_shift : rexCommand (node.shift n) = (rexCommand node).relocate (·.shift n) := by
  simp [rexCommand, quotedText?, SimpleCommand.relocate, Function.comp_def]

theorem regexCommand_shift :
    regexCommand (node.shift n) = (regexCommand node).relocate (·.shift n) := by
  simp [regexCommand, quotedText?, SimpleCommand.relocate, Option.elim_map, Function.comp_def]

theorem lookupCommand_shift :
    lookupCommand (node.shift n) = (lookupCommand node).relocate (·.shift n) := by
  have hmode (p : Placed) : outputMode (p.shift n) = outputMode p := by
    simp [outputMode, Function.comp_def]
    rfl
  rw [lookupCommand, lookupCommand, node?_shift]
  rcases node.node? .outputClause with _ | clause
  · simp [SimpleCommand.relocate, List.flatMap_map]
  · rcases h : clause.node? .fieldList with _ | list <;>
      simp [SimpleCommand.relocate, List.flatMap_map, hmode, h]

theorem inputlookupCommand_shift : inputlookupCommand (node.shift n) (parts.map (·.shift n)) =
    (inputlookupCommand node parts).relocate (·.shift n) := by
  simp [inputlookupCommand, Command.relocate, Search.relocate?_eq_map]

theorem fieldsCommand_shift :
    fieldsCommand (node.shift n) = (fieldsCommand node).relocate (·.shift n) := by
  simp [fieldsCommand, SimpleCommand.relocate]

@[simp] theorem isDescending_shift : isDescending (node.shift n) = isDescending node := by
  simp [isDescending, Option.any_map]

@[simp] theorem sortKeys_shift :
    sortKeys (node.shift n) = (sortKeys node).map (·.relocate (·.shift n)) := by
  have hkey (p : Placed) : sortKey? (p.shift n) = (sortKey? p).map (·.relocate (·.shift n)) := by
    rw [sortKey?, sortKey?, node?_shift, node?_shift]
    rcases p.node? .fieldCall with _ | call <;> rcases p.node? .fieldItem with _ | item <;>
      simp [SortKey.relocate, Option.map_bind]
  simp [sortKeys, List.filterMap_map, List.map_filterMap, hkey]

theorem dedupCommand_shift :
    dedupCommand (node.shift n) = (dedupCommand node).relocate (·.shift n) := by
  simp [dedupCommand, SimpleCommand.relocate]

theorem sortCommand_shift :
    sortCommand (node.shift n) = (sortCommand node).relocate (·.shift n) := by
  have hturns (k : SortKey) : turnsOrder (k.relocate (·.shift n)) = turnsOrder k := rfl
  simp only [sortCommand, SimpleCommand.relocate, sortKeys_shift, leadingCount?_shift,
    List.length_map, List.getLast?_map, Option.any_map, hturns]
  split <;> simp

@[simp] theorem isBareNumber_shift : isBareNumber (node.shift n) = isBareNumber node := by
  simp [isBareNumber, Option.any_map]

theorem headCommand_shift : headCommand (node.shift n) (parts.map (·.shift n)) =
    (headCommand node parts).relocate (·.shift n) := by
  simp [headCommand, SimpleCommand.relocate, List.find?_map, Option.bind_map,
    Option.map_bind]

theorem convertCommand_shift :
    convertCommand (node.shift n) = (convertCommand node).relocate (·.shift n) := by
  have hcall (p : Placed) :
      conversion? (p.shift n) = (conversion? p).map (·.relocate (·.shift n)) := by
    simp [conversion?, Conversion.relocate, Option.map_bind]
  simp [convertCommand, SimpleCommand.relocate, List.filterMap_map, List.map_filterMap, hcall]

theorem replaceCommand_shift :
    replaceCommand (node.shift n) = (replaceCommand node).relocate (·.shift n) := by
  have hpair (p : Placed) : replacement? (p.shift n) = replacement? p := by
    rw [replacement?, replacement?, nodesOf_shift]
    rcases p.nodesOf .argument with _ | ⟨old, rest⟩ <;> simp [Option.elim_map, Function.comp_def]
  simp [replaceCommand, SimpleCommand.relocate, List.filterMap_map, Function.comp_def, hpair]

theorem strcatCommand_shift :
    strcatCommand (node.shift n) = (strcatCommand node).relocate (·.shift n) := by
  have hsource (p : Placed) :
      source? (p.shift n) = (source? p).map (·.relocate (·.shift n)) := by
    rw [source?, source?, isNode_shift, isNode_shift]
    split
    · simp [Expression.relocate]
    · split <;> simp [Expression.relocate]
  have hsources : (node.shift n).children.filterMap source? =
      (node.children.filterMap source?).map (·.relocate (·.shift n)) := by
    simp [List.filterMap_map, List.map_filterMap, hsource]
  have hfield (e : Expression) :
      (e.relocate (·.shift n)).field? = e.field?.map (·.relocate (·.shift n)) := by
    cases e <;> rw [Expression.relocate] <;> rfl
  have hlast (es : List Expression) :
      (es.map (·.relocate (·.shift n))).getLast?.bind (·.field?) =
        (es.getLast?.bind (·.field?)).map (·.relocate (·.shift n)) := by
    simp [Option.bind_map, Option.map_bind, hfield]
  rw [strcatCommand, strcatCommand, hsources, options_shift]
  simp only [hlast]
  cases (node.children.filterMap source?).getLast?.bind (·.field?) <;>
    simp [SimpleCommand.relocate, FieldRef.relocate]

theorem trendlineCommand_shift :
    trendlineCommand (node.shift n) = (trendlineCommand node).relocate (·.shift n) := by
  have htrend (p : Placed) : trend? (p.shift n) = trend? p := by
    simp [trend?]
  simp [trendlineCommand, SimpleCommand.relocate, List.filterMap_map, htrend]

theorem returnCommand_shift :
    returnCommand (node.shift n) = (returnCommand node).relocate (·.shift n) := by
  have hreturned (p : Placed) : returned? (p.shift n) = returned? p := by
    simp [returned?, Function.comp_def]
  simp [returnCommand, SimpleCommand.relocate, List.filterMap_map, hreturned]

theorem foreachCommand_shift : foreachCommand (node.shift n) (parts.map (·.shift n)) =
    (foreachCommand node parts).relocate (·.shift n) := by
  simp [foreachCommand, Command.relocate, Pipeline.relocate?_eq_map, Option.bind_map,
    Option.map_bind]

end Meaning

/-! ### Free arguments -/

/-- The value so many bytes further on. -/
def Positional.shift (p : Positional) : Positional := { p with span := p.span.shift n }

namespace Arguments

/-- The arguments so many bytes further on. -/
def shift (a : Arguments) : Arguments where
  options := a.options
  positionals := a.positionals.map (·.shift n)
  byFields := a.byFields.map (·.relocate (·.shift n))
  overField := a.overField.map (·.relocate (·.shift n))
  queries := a.queries.map (·.relocate (·.shift n))

/-- The arguments that are read so far, so many bytes further on. -/
def Progress.shift (p : Progress) : Progress := ⟨p.arguments.shift n, p.naming⟩

variable (a : Arguments)

theorem addPositional_shift (p : Positional) :
    (a.shift n).addPositional (p.shift n) = (a.addPositional p).shift n := by
  simp [addPositional, shift]

theorem nameLast_shift (name : String) :
    (a.shift n).nameLast name = (a.nameLast name).shift n := by
  rw [nameLast, nameLast]
  cases h : a.positionals.getLast? <;> simp [shift, h, Positional.shift]

theorem addAliased_shift (tree : Placed) :
    (a.shift n).addAliased (tree.shift n) = (a.addAliased tree).shift n := by
  rw [addAliased, addAliased, Placed.childNodes_shift]
  cases tree.childNodes with
  | nil => rfl
  | cons target rest =>
    rw [← addPositional_shift]
    simp [Positional.shift, Function.comp_def]

theorem addValue_shift (p : Progress) (tree : Placed) :
    (p.shift n).addValue (tree.shift n) = (p.addValue tree).shift n := by
  have hempty : (p.arguments.shift n).positionals.isEmpty = p.arguments.positionals.isEmpty := by
    simp [shift]
  simp only [Progress.addValue, Progress.shift, Placed.value_shift, hempty]
  split
  · simp [nameLast_shift]
  · split
    · rfl
    · rw [← addPositional_shift]
      simp [Positional.shift]

theorem add_shift (p : Progress) (part : Part) :
    (p.shift n).add (part.shift n) = (p.add part).shift n := by
  simp only [Progress.add, Part.tree_shift, Placed.shape?_shift]
  split
  · rw [Placed.option?_shift]
    cases part.tree.option? <;> rfl
  · exact addValue_shift n p part.tree
  · exact congrArg (Progress.mk · p.naming) (addAliased_shift n p.arguments part.tree)
  · simp [Progress.shift, shift]
  · simp [Progress.shift, shift, Function.comp_def]
  · simp [Progress.shift, shift, Option.toList_map]
  · rfl

theorem ofParts_shift (parts : List Part) :
    ofParts (parts.map (·.shift n)) = (ofParts parts).shift n := by
  have hfold (p : Progress) : (parts.map (·.shift n)).foldl Progress.add (p.shift n) =
      (parts.foldl Progress.add p).shift n := by
    induction parts generalizing p with
    | nil => rfl
    | cons part parts ih => rw [List.map_cons, List.foldl_cons, add_shift, ih, List.foldl_cons]
  exact congrArg Progress.arguments (hfold ⟨empty, false⟩)

@[simp] theorem options_shift : (a.shift n).options = a.options := rfl

@[simp] theorem queries_shift :
    (a.shift n).queries = a.queries.map (·.relocate (·.shift n)) := rfl

@[simp] theorem values_shift : (a.shift n).values = a.values := by
  simp [values, shift, Positional.shift]

@[simp] theorem value?_shift (i : Nat) : (a.shift n).value? i = a.value? i := by
  rw [value?, value?, values_shift]

@[simp] theorem newName?_shift : (a.shift n).newName? = a.newName? := by
  simp [newName?, shift, List.findSome?_map, Positional.shift, Function.comp_def]

@[simp] theorem renamedFields_shift : (a.shift n).renamedFields = a.renamedFields := by
  simp [renamedFields, shift, Positional.shift]

@[simp] theorem fields_shift : (a.shift n).fields = a.fields.map (·.relocate (·.shift n)) := by
  simp [fields, shift, Positional.shift, FieldRef.relocate]

@[simp] theorem flat_shift : (a.shift n).flat = a.flat := by
  simp [flat, shift, Positional.shift, FieldRef.relocate, List.flatMap_map]

end Arguments

namespace Meaning

open Placed

variable (a : Arguments) (node : Placed) (parts : List Part)

theorem simple?_shift (word : CommandWord) :
    simple? word (a.shift n) = (simple? word a).map (·.relocate (·.shift n)) := by
  cases word <;>
    simp [simple?, SimpleCommand.relocate, autoregressCommand, addtotalsCommand, rangemapCommand]

theorem nested?_shift (word : CommandWord) :
    nested? word (a.shift n) = (nested? word a).map (·.relocate (·.shift n)) := by
  cases word <;> simp [nested?, Command.relocate, Pipeline.relocate?_eq_map,
    Pipeline.relocateAll_eq_map]

theorem genericCommand_shift : genericCommand (node.shift n) (a.shift n) =
    (genericCommand node a).relocate (·.shift n) := by
  simp [genericCommand, Command.relocate, Pipeline.relocateAll_eq_map, Option.elim_map,
    Function.comp_def]

theorem freeCommand_shift : freeCommand (node.shift n) (parts.map (·.shift n)) =
    (freeCommand node parts).relocate (·.shift n) := by
  rw [freeCommand, freeCommand, Arguments.ofParts_shift, Placed.commandWord?_shift]
  simp only [simple?_shift, nested?_shift, genericCommand_shift]
  cases node.commandWord? with
  | none => rfl
  | some word =>
    simp only [Option.bind_some]
    cases simple? word (.ofParts parts) <;> cases nested? word (.ofParts parts) <;>
      simp [Command.relocate]

theorem command?_shift (shape : Shape) : command? (node.shift n) (parts.map (·.shift n)) shape =
    (command? node parts shape).map (·.relocate (·.shift n)) := by
  have hsimple {c d : SimpleCommand} (h : c = d.relocate (·.shift n)) :
      some (Command.simple c) = (some (Command.simple d)).map (·.relocate (·.shift n)) := by
    rw [h, Option.map_some, Command.relocate]
  cases shape with
  | searchCommand => exact congrArg some (searchCommand_shift n node parts)
  | whereCommand => exact hsimple (whereCommand_shift n parts)
  | evalCommand => exact hsimple (by rw [assignments_shift, SimpleCommand.relocate])
  | fieldformatCommand => exact hsimple (by rw [assignments_shift, SimpleCommand.relocate])
  | statsCommand => exact hsimple (statsCommand_shift n node parts)
  | tstatsCommand => exact congrArg some (tstatsCommand_shift n node parts)
  | renameCommand => exact hsimple (renameCommand_shift n node)
  | rexCommand => exact hsimple (rexCommand_shift n node)
  | regexCommand => exact hsimple (regexCommand_shift n node)
  | lookupCommand => exact hsimple (lookupCommand_shift n node)
  | inputlookupCommand => exact congrArg some (inputlookupCommand_shift n node parts)
  | tableCommand => exact hsimple (by rw [Placed.listedFields_shift, SimpleCommand.relocate])
  | fieldsCommand => exact hsimple (fieldsCommand_shift n node)
  | dedupCommand => exact hsimple (dedupCommand_shift n node)
  | sortCommand => exact hsimple (sortCommand_shift n node)
  | headCommand => exact hsimple (headCommand_shift n node parts)
  | topCommand => exact hsimple (topCommand_shift n node)
  | convertCommand => exact hsimple (convertCommand_shift n node)
  | replaceCommand => exact hsimple (replaceCommand_shift n node)
  | strcatCommand => exact hsimple (strcatCommand_shift n node)
  | trendlineCommand => exact hsimple (trendlineCommand_shift n node)
  | returnCommand => exact hsimple (returnCommand_shift n node)
  | fitCommand => exact hsimple (fitCommand_shift n node)
  | foreachCommand => exact congrArg some (foreachCommand_shift n node parts)
  | keywordCommand => exact congrArg some (freeCommand_shift n node parts)
  | genericCommand =>
    rw [command?, Arguments.ofParts_shift, genericCommand_shift]
    rfl
  | _ => rfl

theorem meaning_part?_shift (shape : Shape) :
    (part? shape (parts.map (·.shift n))).elim .nothing (·.meaning) =
      ((part? shape parts).elim .nothing (·.meaning)).shift n := by
  rw [part?_shift]
  cases part? shape parts <;> rfl

theorem ofNode_shift (shape : Shape) :
    ofNode (node.shift n) shape (parts.map (·.shift n)) = (ofNode node shape parts).shift n := by
  have hother : (if shape.isExpression then
        (expression? (node.shift n) (parts.map (·.shift n)) shape).elim .nothing .expression
      else if shape.isTerm then
        (term? (node.shift n) (parts.map (·.shift n)) shape).elim .nothing .term
      else (command? (node.shift n) (parts.map (·.shift n)) shape).elim .nothing .command) =
        Meaning.shift n (if shape.isExpression then
          (expression? node parts shape).elim .nothing .expression
        else if shape.isTerm then (term? node parts shape).elim .nothing .term
        else (command? node parts shape).elim .nothing .command) := by
    rw [expression?_shift, term?_shift, command?_shift]
    split
    · cases expression? node parts shape <;> rfl
    · split
      · cases term? node parts shape <;> rfl
      · cases command? node parts shape <;> rfl
  cases shape with
  | root => exact meaning_part?_shift n parts .pipeline
  | pipeline =>
    simp [ofNode, Meaning.shift, Pipeline.relocate, Stage.relocateAll_eq_map, List.filterMap_map,
      List.map_filterMap]
  | subsearch =>
    have hpipeline : ((part? .pipeline parts).map (·.shift n)).bind (·.pipeline?) =
        ((part? .pipeline parts).bind (·.pipeline?)).map (·.relocate (·.shift n)) := by
      simp [Option.bind_map, Option.map_bind]
    rw [ofNode, ofNode, part?_shift, hpipeline, core_shift]
    cases (part? .pipeline parts).bind (·.pipeline?) <;>
      simp [Meaning.shift, Pipeline.relocate, Stage.relocateAll]
  | searchExpr => simp [ofNode, searchOf_shift, Meaning.shift]
  | whereClause => exact meaning_part?_shift n parts .searchExpr
  | argList => simp [ofNode, Meaning.shift]
  | assignment =>
    rw [ofNode, ofNode, assignment?_shift]
    cases assignment? node parts <;> rfl
  | aggregation =>
    rw [ofNode, ofNode, aggregation?_shift]
    cases aggregation? node parts <;> rfl
  | _ => exact hother

end Meaning

/-! ## Trees -/

namespace Placed

open Meaning

/-- The meaning of a tree that stands further on. -/
theorem meaning_shift (p : Placed) : (p.shift n).meaning = p.meaning.shift n := by
  induction p using Placed.rec (motive_2 := fun ps =>
    partsOfAll (shiftAll n ps) = (partsOfAll ps).map (·.shift n)) with
  | leaf => rw [shift, meaning, meaning]; rfl
  | node span core? shape children ih =>
    rw [meaning, ← ofNode_shift, ← ih, shift, meaning]
  | nil => rfl
  | cons p ps ihp ihps => rw [shiftAll, partsOfAll, partsOfAll, ihp, ihps, List.map_cons]; rfl

theorem partsOfAll_shift (ps : List Placed) :
    partsOfAll (ps.map (shift n)) = (partsOfAll ps).map (·.shift n) := by
  rw [partsOfAll_eq_map, partsOfAll_eq_map, List.map_map, List.map_map]
  exact List.map_congr_left fun p _ => congrArg (Part.mk (p.shift n)) (meaning_shift n p)

end Placed

end SplQuery
