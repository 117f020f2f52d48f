import SplQuery.Proofs.Delimiter.Paired
import SplQuery.Proofs.Stack.Restores

/-!
# The grammar restores the stacks

Every production restores the stacks, whatever is ahead and whatever the stacks are. One that begins
with a delimiter names it if it is there, and is called only where it is.

* `InnersRestore` — what may be nested restores the stacks.
* `Restores.enclosed` is what the groups of the grammar are made of: `Restores.balancedParens`,
  `Restores.fieldCall`, `Restores.parenArguments`, `Restores.subsearch` and so on.
* `innersRestore_belowAt`, `Restores.query` — all levels, and whole queries.
-/

namespace SplQuery.Parser

open Grammar

/-- What may be nested restores the stacks. -/
structure InnersRestore (n : Nat) (below : Option Inner) : Prop where
  nested : ∀ body, Nestable body → Restores n Anywhere (descend below true body)
  pipeline : Restores n Anywhere (descend below false (·.pipeline))

namespace Restores

variable {n : Nat} {P : State → Prop} {below : Option Inner}

/-! ## Shared parts -/

section Parts

theorem valueStep (depth : Nat) : Restores n P (Grammar.valueStep depth) := by
  have hstep (Q : State → Prop) (depth : Nat) :
      Restores n Q (Parser.bump >>= fun _ => Pure.pure (ForInStep.yield depth)) :=
    .bind .bump fun _ => .pure _
  refine .bind .current fun k => ?_
  dsimp only
  split
  · exact .pure _
  · exact .pure _
  · exact .pure _
  · exact .ite (.pure _) (hstep _ _)
  all_goals exact hstep _ _

theorem balancedParens : Restores n (·.next? = some .lparen) Grammar.balancedParens := by
  rw [balancedParens_eq]
  exact .requireThen (.enclosed rfl .bump (.loop fun _ => .valueStep _))

theorem gluedWhile (member : Kind → Bool) : Restores n P (Grammar.gluedWhile member) :=
  .whileTrue (.bind .glued fun _ => .ite
    (.bind .adjacent fun _ => .ite (.bind .bump fun _ => .pure _) (.pure _)) (.pure _))

theorem gluedMore : Restores n P Grammar.gluedMore := by
  refine .whileTrue (.bind .glued fun _ => .ite (.askAdjacent fun k => ?_) (.pure _))
  split
  · refine .bind (.mono .balancedParens fun t ht => ?_) fun _ => .pure _
    exact State.next?_of_head ht rfl
  · exact .ite (.bind .bump fun _ => .pure _) (.pure _)
  · exact .pure _

theorem gluedRun : Restores n P Grammar.gluedRun :=
  .askAt (.bind .balancedParens fun _ => .gluedMore) (.bind .bump fun _ => .gluedMore)

theorem argument : Restores n P Grammar.argument := .node _ .gluedRun

theorem atOption : Restores n P Grammar.atOption :=
  .bind (.isIn _) fun _ => .ite (.isAhead _) (.pure _)

theorem optionArg : Restores n P Grammar.optionArg :=
  .node _ (.bind .bump fun _ => .bind (.expect _ _) fun _ => .node _
    (.bind (.or (.isIn _) (.isAt _)) fun _ => .ite .gluedRun (.reportWith rfl _)))

theorem options : Restores n P Grammar.options :=
  .whileTrue (.bind .atOption fun _ => .ite (.bind .optionArg fun _ => .pure _) (.pure _))

theorem fieldItem : Restores n P Grammar.fieldItem :=
  .node _ (.bind .bump fun _ => .gluedWhile _)

theorem fieldOr (missing : String) : Restores n P (Grammar.fieldOr missing) :=
  .bind (.isIn _) fun _ => .ite .fieldItem (.reportWith rfl _)

theorem aliasName : Restores n P Grammar.aliasName := .fieldOr _

theorem aliasedField : Restores n P Grammar.aliasedField :=
  .bind .mark fun _ => .bind .fieldItem fun _ => .bind (.isAt _) fun _ =>
    .ite (.wrapFrom _ _ (.bind .bump fun _ => .aliasName)) (.pure _)

theorem fieldListOf {item : Parser Unit} (hitem : Restores n Anywhere item) (stop : Kind → Bool) :
    Restores n P (Grammar.fieldListOf item stop) :=
  .node _ (.loop fun _ => .bind (.or .atStageEnd (.or (.isIn _) .atOption)) fun _ =>
    .ite (.pure _) (.bind .current fun _ => .ite (.bind .bump fun _ => .pure _)
      (.ite (.bind hitem fun _ => .pure _) (.pure _))))

theorem fieldList (stop : Kind → Bool) : Restores n P (Grammar.fieldList stop) :=
  .fieldListOf .fieldItem stop

theorem aliasedFieldList (stop : Kind → Bool) : Restores n P (Grammar.aliasedFieldList stop) :=
  .fieldListOf .aliasedField stop

theorem fieldCall : Restores n BeforeParen Grammar.fieldCall := by
  rw [fieldCall_eq]
  refine .nodeSeen _ (fun _ h => h) (.bumpThen (.bind (.enclosed rfl (.expect _ _) ?_) fun _ => ?_))
  · exact .bind (.isIn _) fun _ => .ite .fieldItem (.pure _)
  · exact .bind (.eat _) fun _ => .ite .aliasName (.pure _)

theorem atFieldCall : Restores n P Grammar.atFieldCall :=
  .bind (.isIn _) fun _ => .ite (.isAhead _) (.pure _)

/-- The call of a function of a field begins with a word before a parenthesis. -/
theorem askFieldCall {β : Type} {f : Bool → Parser β} (hyes : Restores n BeforeParen (f true))
    (hno : Restores n Anywhere (f false)) : Restores n P (Grammar.atFieldCall >>= f) :=
  .askParen .atFieldCall (fun s hs => ⟨(Parser.isIn Kind.isWord s).2, asked_of_yes hs⟩) hyes hno

theorem numberLiteral : Restores n P Grammar.numberLiteral := .single _

theorem leadingNumber : Restores n P Grammar.leadingNumber :=
  .bind (.isAt _) fun _ => .ite .numberLiteral (.pure _)

theorem byClause : Restores n P Grammar.byClause :=
  .node _ (.bind .bump fun _ => .bind (.fieldList _) fun _ =>
    .ite (.reportWith rfl _) (.pure _))

theorem overClause : Restores n P Grammar.overClause :=
  .node _ (.bind .bump fun _ => .fieldOr _)

end Parts

/-! ## Searches -/

section Search

theorem subsearch (h : InnersRestore n below) :
    Restores n (·.next? = some .lbracket) (Grammar.subsearch below) :=
  .requireThen (.nodeSeen _ (fun _ hs => hs) (.enclosed rfl .bump (.inCommand _ h.pipeline)))

theorem searchValue : Restores n P Grammar.searchValue :=
  .node _ (.bind .bump fun _ => .gluedWhile _)

theorem searchValueStep : Restores n P Grammar.searchValueStep :=
  .bind (.isIn _) fun _ => .ite (.bind .searchValue fun _ => .eat _) (.pure _)

theorem searchValues : Restores n P Grammar.searchValues := .whileTrue .searchValueStep

theorem searchValueTerm : Restores n P Grammar.searchValueTerm := by
  refine .bind .mark fun _ => .bind .searchValue fun _ => .bind .current fun _ => .ite ?_ ?_
  · exact .wrapFrom _ _ (.bind .bump fun _ => .bind (.isIn _) fun _ =>
      .ite .searchValue (.reportWith rfl _))
  · have hterm {Q : State → Prop} (start : Nat) :
        Restores n Q (Parser.wrapFrom start .searchTerm (Pure.pure ())) :=
      .wrapFrom _ _ (.pure _)
    -- whether a parenthesis comes second is asked whatever the next word is
    refine .askParen (.isAhead _) (fun s _ => ⟨s, rfl⟩) (.ite ?_ (hterm _)) ?_
    · exact .wrapFromSeen _ _ (fun _ hs => hs) (.bumpThen (.enclosed rfl .bump .searchValues))
    · rw [Bool.and_false]
      exact hterm _

theorem atSearchEnd (stop : Kind → Bool) : Restores n P (Grammar.atSearchEnd stop) :=
  .bind .atStageEnd fun _ => .ite (.pure _) (.bind (.isAt _) fun _ => .ite (.pure _) (.isIn _))

theorem searchGroup (h : InnersRestore n below) :
    Restores n (·.next? = some .lparen) (Grammar.searchGroup below) :=
  .nodeSeen _ (fun _ hs => hs) (.enclosed rfl .bump (h.nested _ .searchTerms))

theorem searchPrimary (h : InnersRestore n below) (stop : Kind → Bool) :
    Restores n P (Grammar.searchPrimary below stop) := by
  refine .bind (.atSearchEnd _) fun _ => .ite (.report rfl) (.ask fun k => ?_)
  split
  · exact .searchGroup h
  · exact .subsearch h
  · exact .single _
  · exact .bind .currentText fun _ => .refuseWith rfl _
  · exact .bind .currentText fun _ => .refuseWith rfl _
  · exact .ite .searchValueTerm (.bind .currentText fun _ => .refuseWith rfl _)

theorem searchNot (h : InnersRestore n below) (stop : Kind → Bool) :
    Restores n P (Grammar.searchNot below stop) :=
  .bind (.isAt _) fun _ => .ite
    (.node _ (.bind .bump fun _ => h.nested _ (.searchNot stop))) (.searchPrimary h stop)

theorem orStep (h : InnersRestore n below) (stop : Kind → Bool) :
    Restores n P (Grammar.orStep below stop) :=
  .bind (.eat _) fun _ => .ite (.bind (.searchNot h stop) fun _ => .pure _) (.pure _)

theorem searchOr (h : InnersRestore n below) (stop : Kind → Bool) :
    Restores n P (Grammar.searchOr below stop) :=
  .bind .mark fun _ => .bind (.searchNot h stop) fun _ => .bind (.isAt _) fun _ =>
    .ite (.wrapFrom _ _ (.whileTrue (.orStep h stop))) (.pure _)

theorem termStep (h : InnersRestore n below) (stop : Kind → Bool) :
    Restores n P (Grammar.termStep below stop) :=
  .bind (.atSearchEnd _) fun _ => .ite (.pure _) (.bind (.eat _) fun _ =>
    .ite (.pure _) (.bind (.searchOr h stop) fun _ => .pure _))

theorem searchTerms (h : InnersRestore n below) (stop : Kind → Bool) :
    Restores n P (Grammar.searchTerms below stop) :=
  .whileTrue (.termStep h stop)

theorem searchExpr (h : InnersRestore n below) (stop : Kind → Bool) :
    Restores n P (Grammar.searchExpr below stop) :=
  .node _ (.searchTerms h stop)

theorem whereClause (h : InnersRestore n below) (stop : Kind → Bool) :
    Restores n P (Grammar.whereClause below stop) :=
  .node _ (.bind .bump fun _ => .searchExpr h stop)

end Search

/-! ## Expressions -/

section Expression

theorem expressionFrom (h : InnersRestore n below) (least : Nat) :
    Restores n P (Grammar.expressionFrom below least) :=
  (h.nested _ (.expression least)).weaken

theorem expression (h : InnersRestore n below) : Restores n P (Grammar.expression below) :=
  .expressionFrom h 0

theorem argumentStep (h : InnersRestore n below) : Restores n P (Grammar.argumentStep below) :=
  .bind (.expression h) fun _ => .eat _

theorem parenArguments (h : InnersRestore n below) :
    Restores n (·.next? = some .lparen) (Grammar.parenArguments below) := by
  rw [parenArguments_eq]
  exact .enclosed rfl (.expect _ _) (.bind (.isAt _) fun _ => .ite (.pure _)
    (.bind .atStageEnd fun _ => .ite (.pure _) (.whileTrue (.argumentStep h))))

theorem atCallee : Restores n P Grammar.atCallee :=
  .bind .current fun _ => .bind .currentText fun _ => .ite (.isAhead _) (.pure _)

/-- The call of a function begins with a name before a parenthesis. -/
theorem askCallee {β : Type} {f : Bool → Parser β} (hyes : Restores n BeforeParen (f true))
    (hno : Restores n Anywhere (f false)) : Restores n P (Grammar.atCallee >>= f) :=
  .askParen .atCallee (fun _ hs => ⟨_, asked_of_yes hs⟩) hyes hno

theorem callExpr (h : InnersRestore n below) :
    Restores n BeforeParen (Grammar.callExpr below) :=
  .nodeSeen _ (fun _ hs => hs) (.bumpThen (.nodeSeen _ (fun _ hs => hs) (.parenArguments h)))

theorem operand (h : InnersRestore n below) : Restores n P (Grammar.operand below) := by
  refine .askCallee (.callExpr h) (.ask fun k => ?_)
  split
  · exact .nodeSeen _ (fun _ hs => hs) (.enclosed rfl .bump (.expression h))
  · exact .bind .currentText fun _ => .single _
  · exact .single _
  · exact .single _
  · exact .single _
  · exact .single _
  · exact .single _
  · exact .single _
  · exact .report rfl
  · exact .report rfl
  · exact .ite (.single _) (.bind .atStageEnd fun _ => .ite (.report rfl)
      (.bind .currentText fun _ => .refuseWith rfl _))

theorem signedOperand (h : InnersRestore n below) :
    Restores n P (Grammar.signedOperand below) := by
  have hsign {Q : State → Prop} : Restores n Q (Parser.node .unaryExpr do
      Parser.bump
      Grammar.expressionFrom below signStrength) :=
    .node _ (.bind .bump fun _ => .expressionFrom h _)
  refine .bind .current fun k => ?_
  split
  · exact hsign
  · exact hsign
  · exact .operand h

theorem operatorStep (h : InnersRestore n below) (least start : Nat) :
    Restores n P (Grammar.operatorStep below least start) := by
  refine .bind .current fun k => ?_
  split
  · exact .pure _
  · split
    · exact .pure _
    · refine .ite (.pure _) (.ite ?_ ?_)
      · refine .askParen (.isAhead _) (fun s _ => ⟨s, rfl⟩) ?_ (.pure _)
        exact .bind (.wrapFromSeen _ _ (fun _ hs => hs) (.bumpThen (.parenArguments h)))
          fun _ => .pure _
      · exact .bind (.wrapFrom _ _ (.bind .bump fun _ => .expressionFrom h _)) fun _ => .pure _

theorem operators (h : InnersRestore n below) (least : Nat) :
    Restores n P (Grammar.operators below least) :=
  .bind .mark fun _ => .bind (.signedOperand h) fun _ => .whileTrue (.operatorStep h least _)

end Expression

/-! ## Commands -/

section Commands

theorem searchBody (h : InnersRestore n below) : Restores n P (Grammar.searchBody below) :=
  .searchExpr h _

theorem whereBody (h : InnersRestore n below) : Restores n P (Grammar.whereBody below) :=
  .bind .atStageEnd fun _ => .ite (.report rfl) (.expression h)

theorem tableBody : Restores n P Grammar.tableBody :=
  .bind (.fieldList _) fun _ => .ite (.report rfl) (.pure _)

theorem direction : Restores n P Grammar.direction :=
  .bind (.or (.isAt _) (.isAt _)) fun _ => .ite .bump (.pure _)

theorem fieldsBody : Restores n P Grammar.fieldsBody := .bind .direction fun _ => .tableBody

theorem atSortField : Restores n P Grammar.atSortField := .isIn _

theorem sortField : Restores n P Grammar.sortField :=
  .node _ (.bind .direction fun _ => .askFieldCall .fieldCall (.fieldOr _))

theorem sortFields : Restores n P Grammar.sortFields :=
  .loop fun _ => .bind (.eat _) fun _ => .ite (.pure _)
    (.bind (.or .atStageEnd (.or .atOption (.not .atSortField))) fun _ => .ite (.pure _)
      (.bind .sortField fun _ => .pure _))

theorem dedupBody : Restores n P Grammar.dedupBody :=
  .bind .leadingNumber fun _ => .bind (.loop fun _ => .bind .atStageEnd fun _ => .ite (.pure _)
    (.bind .current fun _ => .ite (.bind .bump fun _ => .pure _)
      (.bind .atOption fun _ => .ite (.bind .optionArg fun _ => .pure _)
        (.ite (.bind .bump fun _ => .bind .sortFields fun _ => .pure _)
          (.ite (.bind (.fieldList _) fun _ => .pure _) (.pure _))))))
    fun _ => .ite (.report rfl) (.pure _)

theorem sortBody : Restores n P Grammar.sortBody := by
  have hmore {Q : State → Prop} (count : Nat) : Restores n Q (do
      let count := count + (← Grammar.sortFields)
      return if count == 0 then ForInStep.done count else .yield count) :=
    .bind .sortFields fun _ => .pure _
  refine .bind .leadingNumber fun _ => .bind (.loop fun count => ?_) fun _ =>
    .ite (.report rfl) (.pure _)
  refine .bind .atStageEnd fun _ => .ite (.pure _) (.bind (.eat _) fun _ => .ite (.pure _)
    (.bind .atOption fun _ => .ite (.bind .optionArg fun _ => .pure _) ?_))
  exact .ite (.bind .atSortField fun _ => .ite (hmore count) (.pure _)) (hmore count)

theorem headBody (h : InnersRestore n below) : Restores n P (Grammar.headBody below) := by
  refine .bind (.loop fun seen => ?_) fun _ => .pure _
  have hcondition {Q : State → Prop} : Restores n Q (do
      if seen.hasCondition || seen.hasLimit then return ForInStep.done seen
      Grammar.expression below
      return .yield { seen with hasCondition := true }) :=
    .ite (.pure _) (.bind (.expression h) fun _ => .pure _)
  refine .bind .atStageEnd fun _ => .ite (.pure _) (.bind .atOption fun _ =>
    .ite (.bind .optionArg fun _ => .pure _) (.bind .current fun _ => .ite ?_ hcondition))
  exact .bind .ahead fun _ => .ite hcondition (.bind .numberLiteral fun _ => .pure _)

theorem renamePair : Restores n P Grammar.renamePair :=
  .node _ (.bind .fieldItem fun _ => .bind (.expect _ _) fun _ => .ite .aliasName (.pure _))

theorem renameBody : Restores n P Grammar.renameBody :=
  .bind (.loop fun _ => .bind (.eat _) fun _ => .ite (.pure _) (.bind .atStageEnd fun _ =>
    .ite (.pure _) (.bind (.isIn _) fun _ =>
      .ite (.bind .renamePair fun _ => .pure _) (.pure _))))
    fun _ => .ite (.report rfl) (.pure _)

theorem rexBody : Restores n P Grammar.rexBody :=
  .bind (.loop fun _ => .bind .atStageEnd fun _ => .ite (.pure _) (.bind .atOption fun _ =>
    .ite (.bind .optionArg fun _ => .pure _) (.bind (.and (.pure _) (.isAt _)) fun _ =>
      .ite (.bind .bump fun _ => .pure _) (.pure _))))
    fun _ => .ite (.pure _) (.reportWith rfl _)

theorem regexPattern : Restores n P Grammar.regexPattern := by
  refine .bind .current fun k => ?_
  split
  · exact .bump
  · exact .ite .argument (.reportWith rfl _)

theorem regexBody : Restores n P Grammar.regexBody :=
  .bind (.isIn _) fun _ => .ite (.bind .ahead fun _ =>
    .ite (.bind .bump fun _ => .bind .bump fun _ => .regexPattern) .regexPattern) .regexPattern

theorem outputClause : Restores n P Grammar.outputClause :=
  .node _ (.bind .bump fun _ => .bind (.aliasedFieldList _) fun _ =>
    .ite (.reportWith rfl _) (.pure _))

theorem lookupBody : Restores n P Grammar.lookupBody := by
  have hrest {Q : State → Prop} : Restores n Q (do
      Grammar.options
      if ← Parser.isIn startsOutput then Grammar.outputClause) :=
    .bind .options fun _ => .bind (.isIn _) fun _ => .ite .outputClause (.pure _)
  refine .bind .options fun _ => .bind (.isIn _) fun _ => .ite ?_ (.reportWith rfl _)
  exact .bind .argument fun _ => .bind (.aliasedFieldList _) fun _ =>
    .ite (.bind (.reportWith rfl _) fun _ => hrest) hrest

theorem inputlookupBody (h : InnersRestore n below) :
    Restores n P (Grammar.inputlookupBody below) := by
  have hrest {Q : State → Prop} : Restores n Q (do
      Grammar.options
      if ← Parser.isAt (.command .whereWord) then Grammar.whereClause below nowhere) :=
    .bind .options fun _ => .bind (.isAt _) fun _ => .ite (.whereClause h _) (.pure _)
  exact .bind .options fun _ => .bind (.and (.isIn _) (.not (.isAt _))) fun _ =>
    .ite (.bind .argument fun _ => hrest) (.bind (.reportWith rfl _) fun _ => hrest)

theorem aggregation (h : InnersRestore n below) : Restores n P (Grammar.aggregation below) := by
  have halias {Q : State → Prop} : Restores n Q (do
      if ← Parser.eat (.clause .as) then Grammar.aliasName) :=
    .bind (.eat _) fun _ => .ite .aliasName (.pure _)
  refine .node _ (.bind .bump fun _ => .askAt ?_ halias)
  exact .bind (.nodeSeen _ (fun _ hs => hs) (.parenArguments h)) fun _ => halias

theorem statsBody (h : InnersRestore n below) : Restores n P (Grammar.statsBody below) := by
  refine .bind (.loop fun count => .bind .atStageEnd fun _ => .ite (.pure _)
    (.bind .current fun k => ?_)) fun _ => .ite (.report rfl) (.pure _)
  split
  · exact .bind .bump fun _ => .pure _
  · exact .bind .byClause fun _ => .pure _
  · exact .bind .byClause fun _ => .pure _
  · exact .bind .overClause fun _ => .pure _
  · exact .bind .atOption fun _ => .ite (.bind .optionArg fun _ => .pure _)
      (.ite (.bind (.aggregation h) fun _ => .pure _) (.pure _))

theorem fromSource : Restores n P Grammar.fromSource :=
  .node _ (.bind .bump fun _ => .bind .atOption fun _ => .ite .optionArg
    (.bind (.isIn _) fun _ => .ite .argument (.reportWith rfl _)))

theorem tstatsBody (h : InnersRestore n below) : Restores n P (Grammar.tstatsBody below) := by
  refine .bind (.loop fun count => .bind .atStageEnd fun _ => .ite (.pure _)
    (.bind .current fun k => ?_)) fun _ => .ite (.report rfl) (.pure _)
  split
  · exact .bind .bump fun _ => .pure _
  · exact .bind .fromSource fun _ => .pure _
  · exact .bind (.whereClause h _) fun _ => .pure _
  · exact .bind .byClause fun _ => .pure _
  · exact .bind .byClause fun _ => .pure _
  · exact .bind .atOption fun _ => .ite (.bind .optionArg fun _ => .pure _)
      (.ite (.bind (.aggregation h) fun _ => .pure _) (.pure _))

theorem topBody : Restores n P Grammar.topBody := by
  refine .bind .leadingNumber fun _ => .bind (.loop fun count => .bind .atStageEnd fun _ =>
    .ite (.pure _) (.bind .current fun k => ?_)) fun _ => .ite (.report rfl) (.pure _)
  split
  · exact .bind .bump fun _ => .pure _
  · exact .bind .byClause fun _ => .pure _
  · exact .bind .byClause fun _ => .pure _
  · exact .bind .atOption fun _ => .ite (.bind .optionArg fun _ => .pure _)
      (.ite (.bind (.fieldList _) fun _ => .pure _) (.pure _))

theorem featuresClause : Restores n P Grammar.featuresClause :=
  .node _ (.bind .bump fun _ => .bind (.fieldList _) fun _ =>
    .ite (.reportWith rfl _) (.pure _))

theorem intoClause : Restores n P Grammar.intoClause :=
  .node _ (.bind .bump fun _ => .bind (.isIn _) fun _ => .ite .argument (.reportWith rfl _))

theorem fitArguments : Restores n P Grammar.fitArguments := by
  refine .whileTrue (.bind .atStageEnd fun _ => .ite (.pure _) (.bind .current fun k => ?_))
  split
  · exact .bind .bump fun _ => .pure _
  · exact .bind .featuresClause fun _ => .pure _
  · exact .bind .intoClause fun _ => .pure _
  · exact .bind .bump fun _ => .bind .aliasName fun _ => .pure _
  · exact .bind .atOption fun _ => .ite (.bind .optionArg fun _ => .pure _)
      (.ite (.bind (.fieldList _) fun _ => .pure _) (.pure _))

theorem fitBody : Restores n P Grammar.fitBody :=
  .bind (.and (.isIn _) (.not .atOption)) fun _ =>
    .ite (.bind .argument fun _ => .fitArguments) (.reportWith rfl _)

theorem assignment (h : InnersRestore n below) : Restores n P (Grammar.assignment below) :=
  .node _ (.bind .fieldItem fun _ => .bind (.expect _ _) fun _ =>
    .ite (.expression h) (.pure _))

theorem evalBody (h : InnersRestore n below) : Restores n P (Grammar.evalBody below) := by
  refine .bind (.loop fun count => .bind (.isIn _) fun _ => .ite ?_ ?_) fun _ => .pure _
  · exact .bind (.assignment h) fun _ => .bind (.eat _) fun _ => .ite (.pure _)
      (.bind .atOption fun _ => .pure _)
  · exact .ite (.bind (.reportWith rfl _) fun _ => .pure _) (.pure _)

theorem convertBody : Restores n P Grammar.convertBody :=
  .bind (.loop fun _ => .bind .atStageEnd fun _ => .ite (.pure _) (.bind (.eat _) fun _ =>
    .ite (.pure _) (.bind .atOption fun _ => .ite (.bind .optionArg fun _ => .pure _)
      (.askFieldCall (.bind .fieldCall fun _ => .pure _) (.pure _)))))
    fun _ => .ite (.reportWith rfl _) (.pure _)

theorem replacement : Restores n P Grammar.replacement :=
  .node _ (.bind .argument fun _ => .bind (.expect _ _) fun _ =>
    .ite (.bind (.isIn _) fun _ => .ite .argument (.reportWith rfl _)) (.pure _))

theorem replaceBody : Restores n P Grammar.replaceBody := by
  have hfields {Q : State → Prop} : Restores n Q (do
      if ← Parser.eat (.clause .inWord) then
        if (← Grammar.fieldList nowhere) == 0 then
          Parser.reportWith .expectedField "after \x60in\x60") :=
    .bind (.eat _) fun _ => .ite (.bind (.fieldList _) fun _ =>
      .ite (.reportWith rfl _) (.pure _)) (.pure _)
  refine .bind (.loop fun count => ?_) fun _ =>
    .ite (.bind (.reportWith rfl _) fun _ => hfields) hfields
  exact .bind (.or .atStageEnd (.isAt _)) fun _ => .ite (.pure _) (.bind (.eat _) fun _ =>
    .ite (.pure _) (.bind (.isIn _) fun _ =>
      .ite (.bind .replacement fun _ => .pure _) (.pure _)))

theorem strcatBody : Restores n P Grammar.strcatBody := by
  refine .bind (.loop fun count => ?_) fun _ => .ite (.reportWith rfl _) (.pure _)
  refine .bind .atStageEnd fun _ => .ite (.pure _) (.bind (.eat _) fun _ => .ite (.pure _)
    (.bind .current fun _ => .bind .atOption fun _ => .ite (.bind .optionArg fun _ => .pure _) ?_))
  exact .bind .currentText fun _ => .ite (.bind (.single _) fun _ => .pure _)
    (.ite (.bind .fieldItem fun _ => .pure _) (.pure _))

theorem trendlineBody : Restores n P Grammar.trendlineBody :=
  .bind (.loop fun _ => .bind .atStageEnd fun _ => .ite (.pure _) (.bind (.eat _) fun _ =>
    .ite (.pure _) (.askFieldCall (.bind .fieldCall fun _ => .pure _) (.pure _))))
    fun _ => .ite (.reportWith rfl _) (.pure _)

theorem foreachBody (h : InnersRestore n below) : Restores n P (Grammar.foreachBody below) := by
  refine .bind (.loop fun seen => .bind .atStageEnd fun _ => .ite (.pure _) (.ite (.pure _)
    (.ask fun k => ?_))) fun _ => .ite (.report rfl) (.ite (.pure _) (.reportWith rfl _))
  split
  · exact .bind .bump fun _ => .pure _
  · exact .bind (.subsearch h) fun _ => .pure _
  · exact .bind .atOption fun _ => .ite (.bind .optionArg fun _ => .pure _)
      (.ite (.bind (.fieldList _) fun _ => .pure _) (.pure _))

theorem returnBody : Restores n P Grammar.returnBody := by
  refine .bind .leadingNumber fun _ => .whileTrue (.bind .atStageEnd fun _ => .ite (.pure _)
    (.bind .current fun k => ?_))
  split
  · exact .bind .bump fun _ => .pure _
  · exact .bind .atOption fun _ => .ite (.bind .optionArg fun _ => .pure _)
      (.ite (.bind .fieldItem fun _ => .pure _) (.pure _))

theorem aliasedArgument : Restores n P Grammar.aliasedArgument :=
  .bind .mark fun _ => .bind .argument fun _ => .bind (.isAt _) fun _ =>
    .ite (.wrapFrom _ _ (.bind .bump fun _ => .bind (.isIn _) fun _ =>
      .ite .argument (.reportWith rfl _))) (.pure _)

theorem freeArgument (h : InnersRestore n below) (k : Kind) :
    Restores n (·.next? = some k) (Grammar.freeArgument below k) := by
  unfold Grammar.freeArgument
  split
  · exact .subsearch h
  · exact .bump
  · exact .byClause
  · exact .byClause
  · exact .overClause
  · exact .refuse rfl
  · have hvalue {Q : State → Prop} : Restores n Q (do
        if k.isGlue || k == .lparen then Grammar.aliasedArgument
        else Parser.refuseWith .unexpectedToken (ticked (← Parser.currentText))) :=
      .ite .aliasedArgument (.bind .currentText fun _ => .refuseWith rfl _)
    exact .ite (.bind (.isAhead _) fun _ => .ite .optionArg hvalue) hvalue

theorem argumentList (h : InnersRestore n below) : Restores n P (Grammar.argumentList below) := by
  refine .whileTrue (.bind .atStageEnd fun _ => .ite (.pure _) (.ask fun k => ?_))
  cases k with
  | none => exact .pure _
  | some k => exact .bind (.freeArgument h k) fun _ => .pure _

theorem bodyOf (h : InnersRestore n below) (word : CommandWord) :
    Restores n P (Grammar.bodyOf below word) := by
  unfold Grammar.bodyOf
  split
  exacts [.searchBody h, .whereBody h, .evalBody h, .evalBody h, .statsBody h, .statsBody h,
    .statsBody h, .statsBody h, .statsBody h, .tstatsBody h, .renameBody, .rexBody, .regexBody,
    .lookupBody, .inputlookupBody h, .tableBody, .fieldsBody, .dedupBody, .sortBody, .headBody h,
    .topBody, .topBody, .convertBody, .replaceBody, .strcatBody, .trendlineBody, .returnBody,
    .fitBody, .foreachBody h, .argumentList h]

end Commands

/-! ## Stages and queries -/

section Stages

theorem finishStage : Restores n P Grammar.finishStage :=
  .bind .atStageEnd fun _ => .ite (.pure _) (.bind .currentText fun _ => .recover rfl _)

theorem command (h : InnersRestore n below) (word : CommandWord) :
    Restores n P (Grammar.command below word) :=
  .bind (.require _) fun _ => .bind (.require _) fun _ => .inCommand _ (.node _
    (.bind .bump fun _ => .bind (.bodyOf h word) fun _ => .finishStage))

theorem genericCommand (h : InnersRestore n below) : Restores n P (Grammar.genericCommand below) :=
  .inCommand _ (.node _ (.bind .bump fun _ => .bind (.argumentList h) fun _ => .finishStage))

theorem firstStage (h : InnersRestore n below) : Restores n P (Grammar.firstStage below) := by
  refine .bind .current fun k => ?_
  split
  · exact .bind .ahead fun _ => .ite (.searchExpr h _) (.command h _)
  · exact .searchExpr h _

theorem stage (h : InnersRestore n below) : Restores n P (Grammar.stage below) := by
  refine .bind .current fun k => ?_
  split
  · exact .command h _
  · exact .genericCommand h
  · exact .genericCommand h
  · exact .report rfl
  · exact .report rfl
  · exact .report rfl
  · exact .bind .currentText fun _ => .recover rfl _

theorem stages (h : InnersRestore n below) (nested : Bool) :
    Restores n P (Grammar.stages below nested) := by
  refine .whileTrue (.bind .current fun k => ?_)
  split
  · exact .pure _
  · exact .ite (.pure _) (.bind (.refuse rfl) fun _ => .pure _)
  · exact .bind .bump fun _ => .bind (.stage h) fun _ => .pure _
  · exact .bind .currentText fun _ => .bind (.recover rfl _) fun _ => .pure _

theorem pipeline (h : InnersRestore n below) (nested : Bool) :
    Restores n P (Grammar.pipeline below nested) :=
  .node _ (.bind .atStageEnd fun _ => .ite (.stages h _)
    (.bind (.firstStage h) fun _ => .stages h _))

end Stages

end Restores

/-- **What may be nested restores the stacks**, however deep that may be. -/
theorem innersRestore_belowAt (n : Nat) : InnersRestore n (belowAt n) := by
  induction n with
  | zero => exact ⟨fun body _ => .descend_none true body, .descend_none false _⟩
  | succ n ih =>
    refine ⟨fun body hbody => .descend true ?_, .descend false (.pipeline ih true)⟩
    cases hbody with
    | searchNot stop => exact .searchNot ih stop
    | searchTerms => exact .searchTerms ih nowhere
    | expression least => exact .operators ih least

/-- A whole query restores the stacks. -/
theorem Restores.query {P : State → Prop} (limit : Nat) : Restores limit P (Grammar.query limit) :=
  .node _ (.bind (.pipeline (innersRestore_belowAt limit) false) fun _ => .eatTrivia)

end SplQuery.Parser
