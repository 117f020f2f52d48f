import SplQuery.Proofs.Stack.Grammar

/-!
# The stacks of a parse

Whatever the state is in which a production starts, and whatever is on the stacks then, it leaves
them as they were: it comes back to the level on which it started, closes the nodes that it opened,
and takes from the delimiters and the commands what it put there. So at the end of a parse all of
them are empty, and what is reported of a delimiter that is left open is about that delimiter.

* `Grammar.Production` — the productions of the grammar.
* `Grammar.Production.restores` — each of them restores the stacks.
* `parse_stacks` — the stacks of a parse.
-/

namespace SplQuery

open State

namespace Grammar

open SplQuery.Parser

/-- The productions of the grammar, with so many levels below. -/
inductive Production (below : Option Inner) : {α : Type} → Parser α → Prop where
  -- shared parts
  | balancedParens : Production below balancedParens
  | gluedWhile (member : Kind → Bool) : Production below (gluedWhile member)
  | gluedMore : Production below gluedMore
  | gluedRun : Production below gluedRun
  | argument : Production below argument
  | optionArg : Production below optionArg
  | options : Production below options
  | fieldItem : Production below fieldItem
  | fieldOr (missing : String) : Production below (fieldOr missing)
  | aliasName : Production below aliasName
  | aliasedField : Production below aliasedField
  | fieldList (stop : Kind → Bool) : Production below (fieldList stop)
  | aliasedFieldList (stop : Kind → Bool) : Production below (aliasedFieldList stop)
  | fieldCall : Production below fieldCall
  | leadingNumber : Production below leadingNumber
  | byClause : Production below byClause
  | overClause : Production below overClause
  -- searches
  | subsearch : Production below (subsearch below)
  | searchValue : Production below searchValue
  | searchValues : Production below searchValues
  | searchValueTerm : Production below searchValueTerm
  | searchGroup : Production below (searchGroup below)
  | searchPrimary (stop : Kind → Bool) : Production below (searchPrimary below stop)
  | searchNot (stop : Kind → Bool) : Production below (searchNot below stop)
  | searchOr (stop : Kind → Bool) : Production below (searchOr below stop)
  | searchTerms (stop : Kind → Bool) : Production below (searchTerms below stop)
  | searchExpr (stop : Kind → Bool) : Production below (searchExpr below stop)
  | whereClause (stop : Kind → Bool) : Production below (whereClause below stop)
  -- expressions
  | expressionFrom (least : Nat) : Production below (expressionFrom below least)
  | expression : Production below (expression below)
  | parenArguments : Production below (parenArguments below)
  | callExpr : Production below (callExpr below)
  | operand : Production below (operand below)
  | signedOperand : Production below (signedOperand below)
  | operatorStep (least start : Nat) : Production below (operatorStep below least start)
  | operators (least : Nat) : Production below (operators below least)
  -- commands and their arguments
  | aggregation : Production below (aggregation below)
  | fromSource : Production below fromSource
  | featuresClause : Production below featuresClause
  | intoClause : Production below intoClause
  | fitArguments : Production below fitArguments
  | assignment : Production below (assignment below)
  | replacement : Production below replacement
  | regexPattern : Production below regexPattern
  | outputClause : Production below outputClause
  | direction : Production below direction
  | sortField : Production below sortField
  | sortFields : Production below sortFields
  | renamePair : Production below renamePair
  | aliasedArgument : Production below aliasedArgument
  | freeArgument (kind : Kind) : Production below (freeArgument below kind)
  | argumentList : Production below (argumentList below)
  | body (word : CommandWord) : Production below (bodyOf below word)
  | command (word : CommandWord) : Production below (command below word)
  | genericCommand : Production below (genericCommand below)
  -- stages and queries
  | finishStage : Production below finishStage
  | firstStage : Production below (firstStage below)
  | stage : Production below (stage below)
  | stages (nested : Bool) : Production below (stages below nested)
  | pipeline (nested : Bool) : Production below (pipeline below nested)

/-- **Every production restores the stacks** if what may be nested in it does. -/
theorem Production.restores {n : Nat} {below : Option Inner} {α : Type} {p : Parser α}
    (h : InnersRestore n below) (hp : Production below p) : ∃ P, Restores n P p := by
  cases hp with
  | balancedParens => exact ⟨_, .balancedParens⟩
  | gluedWhile member => exact ⟨Anywhere, .gluedWhile member⟩
  | gluedMore => exact ⟨Anywhere, .gluedMore⟩
  | gluedRun => exact ⟨Anywhere, .gluedRun⟩
  | argument => exact ⟨Anywhere, .argument⟩
  | optionArg => exact ⟨Anywhere, .optionArg⟩
  | options => exact ⟨Anywhere, .options⟩
  | fieldItem => exact ⟨Anywhere, .fieldItem⟩
  | fieldOr missing => exact ⟨Anywhere, .fieldOr missing⟩
  | aliasName => exact ⟨Anywhere, .aliasName⟩
  | aliasedField => exact ⟨Anywhere, .aliasedField⟩
  | fieldList stop => exact ⟨Anywhere, .fieldList stop⟩
  | aliasedFieldList stop => exact ⟨Anywhere, .aliasedFieldList stop⟩
  | fieldCall => exact ⟨_, .fieldCall⟩
  | leadingNumber => exact ⟨Anywhere, .leadingNumber⟩
  | byClause => exact ⟨Anywhere, .byClause⟩
  | overClause => exact ⟨Anywhere, .overClause⟩
  | subsearch => exact ⟨_, .subsearch h⟩
  | searchValue => exact ⟨Anywhere, .searchValue⟩
  | searchValues => exact ⟨Anywhere, .searchValues⟩
  | searchValueTerm => exact ⟨Anywhere, .searchValueTerm⟩
  | searchGroup => exact ⟨_, .searchGroup h⟩
  | searchPrimary stop => exact ⟨Anywhere, .searchPrimary h stop⟩
  | searchNot stop => exact ⟨Anywhere, .searchNot h stop⟩
  | searchOr stop => exact ⟨Anywhere, .searchOr h stop⟩
  | searchTerms stop => exact ⟨Anywhere, .searchTerms h stop⟩
  | searchExpr stop => exact ⟨Anywhere, .searchExpr h stop⟩
  | whereClause stop => exact ⟨Anywhere, .whereClause h stop⟩
  | expressionFrom least => exact ⟨Anywhere, .expressionFrom h least⟩
  | expression => exact ⟨Anywhere, .expression h⟩
  | parenArguments => exact ⟨_, .parenArguments h⟩
  | callExpr => exact ⟨_, .callExpr h⟩
  | operand => exact ⟨Anywhere, .operand h⟩
  | signedOperand => exact ⟨Anywhere, .signedOperand h⟩
  | operatorStep least start => exact ⟨Anywhere, .operatorStep h least start⟩
  | operators least => exact ⟨Anywhere, .operators h least⟩
  | aggregation => exact ⟨Anywhere, .aggregation h⟩
  | fromSource => exact ⟨Anywhere, .fromSource⟩
  | featuresClause => exact ⟨Anywhere, .featuresClause⟩
  | intoClause => exact ⟨Anywhere, .intoClause⟩
  | fitArguments => exact ⟨Anywhere, .fitArguments⟩
  | assignment => exact ⟨Anywhere, .assignment h⟩
  | replacement => exact ⟨Anywhere, .replacement⟩
  | regexPattern => exact ⟨Anywhere, .regexPattern⟩
  | outputClause => exact ⟨Anywhere, .outputClause⟩
  | direction => exact ⟨Anywhere, .direction⟩
  | sortField => exact ⟨Anywhere, .sortField⟩
  | sortFields => exact ⟨Anywhere, .sortFields⟩
  | renamePair => exact ⟨Anywhere, .renamePair⟩
  | aliasedArgument => exact ⟨Anywhere, .aliasedArgument⟩
  | freeArgument kind => exact ⟨_, .freeArgument h kind⟩
  | argumentList => exact ⟨Anywhere, .argumentList h⟩
  | body word => exact ⟨Anywhere, .bodyOf h word⟩
  | command word => exact ⟨Anywhere, .command h word⟩
  | genericCommand => exact ⟨Anywhere, .genericCommand h⟩
  | finishStage => exact ⟨Anywhere, .finishStage⟩
  | firstStage => exact ⟨Anywhere, .firstStage h⟩
  | stage => exact ⟨Anywhere, .stage h⟩
  | stages nested => exact ⟨Anywhere, .stages h nested⟩
  | pipeline nested => exact ⟨Anywhere, .pipeline h nested⟩

end Grammar

/-! ## Whole parses -/

namespace Parse

open SplQuery.Parser Grammar

/-- From its first state to its last a parse restores the stacks. -/
theorem restores (limit : Nat) : Restores limit Anywhere (do query limit; eatTrivia) :=
  .bind (.query limit) fun _ => .eatTrivia

/-- Before anything is read all lexemes are to come, and nothing is noted. -/
theorem names_start (lexemes : List Lexeme) (stop : Nat) : (start lexemes stop).Names lexemes :=
  ⟨List.Subset.refl _, nofun⟩

/-- What is reported of a delimiter that is left open is about one of the lexemes. -/
theorem namesOpener_of_mem {lexemes : List Lexeme} {stop limit : Nat} {d : Diagnostic}
    (h : d ∈ (ofLexemes lexemes stop limit).diagnostics) : d.NamesOpener lexemes :=
  ((restores limit).names _ lexemes trivial (names_start lexemes stop)).reports d
    (List.mem_reverse.mp h)

end Parse

open SplQuery.Parser Grammar

/-- **The stacks of a parse.** From whatever state a production is started, with so many levels left
to the limit, what it does is balanced: it ends on the level on which it started, with as many nodes
open and with the delimiters and the commands that it found; each delimiter that it takes is one
that it put there itself; and it never goes back in the text. So at the end of a parse of a text the
stacks are empty. And where a parenthesis or a bracket is reported to be left open, the report
starts where the text has one, and its stretch is the only other one that is named. -/
theorem parse_stacks :
    (∀ (levels : Nat) (α : Type) (p : Parser α), Production (belowAt levels) p →
      ∀ s : State, ∃ trace, Traced p s trace ∧
        (∀ depth nodes, Action.Balanced (depth + levels) trace
          ⟨depth, nodes, s.openers, s.commands⟩) ∧
        (p s).2.openers = s.openers ∧ (p s).2.commands = s.commands ∧
        (p s).2.rest <:+ s.rest) ∧
    ∀ (text : String) (limit : Nat),
      (∀ d ∈ (parseTree text limit).diagnostics, d.NamesOpener (lex text)) ∧
      (∃ trace, Traced (do query limit; eatTrivia) (start (lex text) text.utf8ByteSize) trace ∧
        Action.Balanced limit trace ⟨0, 0, [], []⟩) ∧
      (Parse.finalState (lex text) text.utf8ByteSize limit).openers = [] ∧
      (Parse.finalState (lex text) text.utf8ByteSize limit).commands = [] := by
  refine ⟨fun levels α p hp s => ?_, fun text limit => ⟨fun d hd => ?_, ?_⟩⟩
  · obtain ⟨P, hrestores⟩ := hp.restores (innersRestore_belowAt levels)
    obtain ⟨trace, htrace, hnested⟩ := hrestores.nested s
    obtain ⟨hopeners, hcommands⟩ := htrace.mirrors hnested
    exact ⟨trace, htrace, fun depth nodes => hnested.balanced (Nat.le_refl _), hopeners, hcommands,
      htrace.rest⟩
  · exact Parse.namesOpener_of_mem hd
  · obtain ⟨trace, htrace, hnested⟩ :=
      (Parse.restores limit).nested (start (lex text) text.utf8ByteSize)
    obtain ⟨hopeners, hcommands⟩ := htrace.mirrors hnested
    exact ⟨⟨trace, htrace, hnested.balanced (Nat.le_of_eq (Nat.zero_add limit))⟩, hopeners,
      hcommands⟩

/-- A query between brackets, and a text with a parenthesis and a bracket that are left open. -/
theorem parse_stacks_sample :
    Production (belowAt 1) (subsearch (belowAt 1)) ∧
      (∃ trace, Traced (subsearch (belowAt 1)) (start (lex "[b") 2) trace ∧
        ∀ depth nodes, Action.Balanced (depth + 1) trace ⟨depth, nodes, [], []⟩) ∧
      (parseTree "(a | foo [b" 128).diagnostics.map (·.kind) =
        [.unclosedParen, .unclosedSubsearch] ∧
      ∀ d ∈ (parseTree "(a | foo [b" 128).diagnostics, d.NamesOpener (lex "(a | foo [b") := by
  refine ⟨.subsearch, ?_, by decide +kernel, (parse_stacks.2 _ 128).1⟩
  obtain ⟨trace, htrace, hbalanced, -⟩ := parse_stacks.1 1 _ _ .subsearch (start (lex "[b") 2)
  exact ⟨trace, htrace, hbalanced⟩

end SplQuery
