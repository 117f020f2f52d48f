import SplQuery.Proofs.Delimiter.Paired
import SplQuery.Proofs.Formed.Rules
import SplQuery.Proofs.Made.Search

/-!
# What parts, searches and expressions put in

Each production where it notes nothing: values, options, names and clauses are plain, a search is
made of terms, and every operator has its operands.
-/

namespace SplQuery.Grammar

open SplQuery.Parser Shape

/-! ## Plain parts -/

section Plain

variable {α : Type} {sight : Sight} {shape : Shape} {p : Parser α}

/-- What is put in is plain. -/
abbrev Plain (sight : Sight) (p : Parser α) : Prop := Puts isPlainPart sight p

/-- A node that holds plain parts. -/
theorem plainNode (h : Plain sight.inside p) (hparts : shape.PartsFit = Only isPlainPart)
    (hwords : shape.WordsFit = fun _ => True) : PutsNode shape sight (node shape p) :=
  .node h fun _ _ hc => ⟨by rw [hwords]; trivial, by rwa [hparts]⟩

/-- A node around the lexeme directly ahead. -/
theorem singleNode {k : Kind} (hparts : shape.PartsFit [])
    (hwords : shape.WordsFit [k]) : PutsNode shape (.here k) (single shape) :=
  .node .bumpHere fun _ _ hc => hc ▸ ⟨hwords, hparts⟩

theorem plain_balancedParens : Plain .nothing balancedParens := by
  rw [balancedParens_eq]
  refine .asking (.require _) fun _ => Puts.group .bump (.loop fun depth => ?_)
  have hstep (d : Nat) : Plain .nothing (bump >>= fun _ => pure (ForInStep.yield d)) :=
    Puts.bump.bind fun _ => .pure _
  refine .asking .current fun k => ?_
  split
  · exact Puts.pure _
  · exact Puts.pure _
  · exact Puts.pure _
  · exact .ite (fun _ => Puts.pure _) fun _ => hstep _
  · exact hstep _
  · exact hstep _

theorem plain_gluedWhile (member : Kind → Bool) : Plain .nothing (gluedWhile member) := by
  refine .whileTrue (.asking .glued fun _ => .ite (fun _ => ?_) fun _ => Puts.pure _)
  exact .asking .adjacent fun _ => .ite (fun _ => Puts.bump.bind fun _ => .pure _) fun _ =>
    Puts.pure _

theorem plain_gluedMore : Plain .nothing gluedMore := by
  refine .whileTrue (.asking .glued fun _ => .ite (fun _ => ?_) fun _ => Puts.pure _)
  refine .asking .adjacent fun k => ?_
  split
  · exact plain_balancedParens.bind fun _ => .pure _
  · exact .ite (fun _ => Puts.bump.bind fun _ => .pure _) fun _ => Puts.pure _
  · exact Puts.pure _

theorem plain_gluedRun : Plain .nothing gluedRun := by
  refine .asking (.isAt _) fun _ => .ite (fun _ => ?_) fun _ => ?_
  · exact plain_balancedParens.bind fun _ => plain_gluedMore
  · exact Puts.bump.bind fun _ => plain_gluedMore

theorem puts_argument : PutsNode .argument .nothing argument := plainNode plain_gluedRun rfl rfl

theorem plain_argument : Plain .nothing argument := puts_argument.puts rfl

theorem puts_optionArg : PutsNode .optionArg .nothing optionArg := by
  refine plainNode (Puts.bump.bind fun _ => (Puts.expect _ _).bind fun _ =>
    PutsNode.puts (plainNode (.asking (.orM (.isIn _) (.isAt _)) fun _ => ?_) rfl rfl) rfl) rfl rfl
  exact .ite (fun _ => plain_gluedRun) fun _ => .noisy (.reportWith _ _)

theorem plain_optionArg : Plain .nothing optionArg := puts_optionArg.puts rfl

theorem plain_options : Plain .nothing options :=
  .whileTrue (.asking .atOption fun _ =>
    .ite (fun _ => plain_optionArg.bind fun _ => .pure _) fun _ => Puts.pure _)

theorem puts_fieldItem : PutsNode .fieldItem .nothing fieldItem :=
  plainNode (Puts.bump.bind fun _ => plain_gluedWhile _) rfl rfl

theorem plain_fieldItem : Plain .nothing fieldItem := puts_fieldItem.puts rfl

theorem plain_fieldOr (missing : String) : Plain .nothing (fieldOr missing) :=
  .asking (.isIn _) fun _ => .ite (fun _ => plain_fieldItem) fun _ => .noisy (.reportWith _ _)

/-- A part gets another name if there is an `as`. -/
theorem puts_aliased {among : Shape → Bool} {member : Kind → Bool} {part : Parser Unit}
    (h : PutsNode shape .nothing part) (hshape : shape.isPlainPart = true)
    (hpart : among shape = true) (haliased : among .aliasedField = true) :
    Puts among .nothing (aliased member part) := by
  refine .marked fun n => (h n).bind fun _ => .asking (.isAt _) fun _ => .ite (fun _ => ?_)
    fun _ => .pure fun _ hc => hc ▸ only_singleton.mpr hpart
  -- the name is such a part as well
  have hname : PutsNode shape .nothing (otherName member part) :=
    .asking (.isIn _) fun _ => .ite (fun _ => h) fun _ => .noisy (.reportWith _ _)
  have hrest : Forms (fun _ c => c.parts = [shape]) .nothing
      (bump >>= fun _ => otherName member part) :=
    Forms.bump.bind (fun _ => hname) fun _ _ c d hc hd => by
      rw [Content.parts_append, hc, hd]
      rfl
  refine .wrapFrom (M := fun _ c => c.parts = [shape, shape]) (hrest.frame fun c _ d hc hd => ?_)
    (fun _ hc => ⟨trivial, shape, hshape, hc⟩) (only_singleton.mpr haliased)
  rw [Content.parts_append, hc, hd]
  rfl

theorem plain_aliasedField : Plain .nothing aliasedField := puts_aliased puts_fieldItem rfl rfl rfl

theorem plain_fieldListOf {item : Parser Unit} (h : Plain .nothing item) (stop : Kind → Bool) :
    Plain .nothing (fieldListOf item stop) := by
  refine PutsNode.puts (plainNode (.loop fun count => ?_) rfl rfl) rfl
  refine .asking (.orM .atStageEnd (.orM (.isIn _) .atOption)) fun _ =>
    .ite (fun _ => Puts.pure _) fun _ => .asking .current fun _ => .ite (fun _ => ?_) fun _ => ?_
  · exact Puts.bump.bind fun _ => .pure _
  · exact .ite (fun _ => h.bind fun _ => .pure _) fun _ => Puts.pure _

theorem plain_fieldList (stop : Kind → Bool) : Plain .nothing (fieldList stop) :=
  plain_fieldListOf plain_fieldItem stop

theorem plain_aliasedFieldList (stop : Kind → Bool) : Plain .nothing (aliasedFieldList stop) :=
  plain_fieldListOf plain_aliasedField stop

theorem plain_fieldCall : Plain .nothing fieldCall := by
  rw [fieldCall_eq]
  refine PutsNode.puts (plainNode (Puts.bump.bind fun _ => Puts.bind (Puts.group ?_ ?_) fun _ => ?_)
    rfl rfl) rfl
  · exact (Forms.expect _ _).mono fun _ _ hc => hc.2
  · exact .asking (.isIn _) fun _ => .ite (fun _ => plain_fieldItem) fun _ => Puts.pure _
  · exact (Puts.eat _).bind fun _ => .ite (fun _ => plain_fieldOr _) fun _ => Puts.pure _

theorem puts_literal {k : Kind} : PutsNode .literal (.here k) (single .literal) :=
  singleNode rfl ⟨k, rfl⟩

theorem plain_leadingNumber : Plain .nothing leadingNumber :=
  .askAt (puts_literal.puts rfl) (Puts.pure _)

theorem puts_byClause : PutsNode .byClause .nothing byClause :=
  plainNode (Puts.bump.bind fun _ => (plain_fieldList _).bind fun _ =>
    .ite (fun _ => .noisy (.reportWith _ _)) fun _ => Puts.pure _) rfl rfl

theorem plain_byClause : Plain .nothing byClause := puts_byClause.puts rfl

theorem puts_overClause : PutsNode .overClause .nothing overClause :=
  plainNode (Puts.bump.bind fun _ => plain_fieldOr _) rfl rfl

theorem plain_overClause : Plain .nothing overClause := puts_overClause.puts rfl

end Plain

/-! ## Nested parts -/

/-- What may be nested puts in what it should. -/
structure InnersForm (below : Option Inner) : Prop where
  expression : ∀ least, PutsOne isExpression .nothing (descend below true (·.expression least))
  searchNot : ∀ stop, PutsOne isTerm .nothing (descend below true (·.searchNot stop))
  searchTerms : Puts isTerm .nothing (descend below true (·.searchTerms))
  pipeline : PutsOne (· == .pipeline) .nothing (descend below false (·.pipeline))

section Nested

variable {below : Option Inner} {k : Kind} {stop : Kind → Bool}

theorem InnersForm.subsearch (hbelow : InnersForm below) :
    PutsNode .subsearch .nothing (subsearch below) := by
  refine .asking (.require _) fun _ =>
    .node (Forms.group .bump (hbelow.pipeline.inCommand none)) fun _ c hc => ?_
  obtain ⟨_, d, hd, hparts⟩ := hc
  exact ⟨trivial, hparts ▸ hd⟩

/-! ## Searches -/

theorem puts_searchValue : PutsNode .searchValue .nothing searchValue :=
  plainNode (Puts.bump.bind fun _ => plain_gluedWhile _) rfl rfl

theorem plain_searchValues : Plain .nothing searchValues :=
  .whileTrue (.asking (.isIn _) fun _ => .ite
    (fun _ => (puts_searchValue.puts rfl).bind fun _ => .eat _) fun _ => Puts.pure _)

/-- A value is put under a term, together with what it is compared with. -/
theorem puts_searchValueTerm : PutsOne isTerm .nothing searchValueTerm := by
  have hwrap {n : Nat} {shape : Shape} {body : Parser Unit} (hbody : Plain .nothing body)
      (hparts : shape.PartsFit = Only isPlainPart) (hwords : shape.WordsFit = fun _ => True)
      (hshape : shape.isTerm = true) :
      Carries n (· = .part .searchValue) (fun _ c => One isTerm c.parts) .nothing
        (wrapFrom n shape body) :=
    .wrapFrom (hbody.after 0 fun c hc => hc ▸ only_singleton.mpr rfl)
      (fun _ hc => ⟨by rw [hwords]; trivial, by rwa [hparts]⟩) (one_singleton hshape)
  refine .marked fun n => (puts_searchValue n).bind fun _ => .asking .current fun k =>
    .ite (fun _ => hwrap ?_ rfl rfl rfl) fun _ => ?_
  · exact Puts.bump.bind fun _ => .asking (.isIn _) fun _ =>
      .ite (fun _ => puts_searchValue.puts rfl) fun _ => .noisy (.reportWith _ _)
  · have hterm : Carries n (· = .part .searchValue) (fun _ c => One isTerm c.parts) .nothing
        (wrapFrom n .searchTerm (pure ())) := hwrap (Puts.pure _) rfl rfl rfl
    refine .asking (.isAhead _) fun _ => .ite (fun _ => hwrap ?_ rfl rfl rfl) fun _ => hterm
    exact Puts.bump.bind fun _ => Puts.group .bump plain_searchValues

theorem puts_searchGroup (hbelow : InnersForm below) :
    PutsNode .searchGroup .nothing (searchGroup below) :=
  .node (Puts.group .bump hbelow.searchTerms) fun _ _ hc => ⟨trivial, hc⟩

theorem puts_searchPrimary (hbelow : InnersForm below) :
    PutsOne isTerm .nothing (searchPrimary below stop) := by
  rw [searchPrimary_eq]
  refine .asking (.atSearchEnd _) fun _ => .ite (fun _ => .noisy (.report _)) fun _ =>
    .asking .current fun k => ?_
  unfold primaryAt
  split
  · exact (puts_searchGroup hbelow).one rfl
  · exact hbelow.subsearch.one rfl
  · exact (plainNode Puts.bump rfl rfl).one rfl
  · exact .asking .currentText fun _ => .noisy (.refuseWith _ _)
  · exact .asking .currentText fun _ => .noisy (.refuseWith _ _)
  · exact .ite (fun _ => puts_searchValueTerm) fun _ =>
      .asking .currentText fun _ => .noisy (.refuseWith _ _)

theorem puts_searchNot (hbelow : InnersForm below) :
    PutsOne isTerm .nothing (searchNot below stop) := by
  have hnegated : PutsOne isTerm .nothing (bump >>= fun _ =>
      descend below true (·.searchNot stop)) :=
    Forms.bump.bind (fun _ => hbelow.searchNot stop) fun _ _ c d hc hd => by
      rwa [Content.parts_append, hc, List.nil_append]
  exact .asking (.isAt _) fun _ => .ite
    (fun _ => PutsNode.one (.node hnegated fun _ _ hc => ⟨trivial, hc⟩) rfl)
    fun _ => puts_searchPrimary hbelow

theorem puts_searchOr (hbelow : InnersForm below) :
    PutsOne isTerm .nothing (searchOr below stop) := by
  have hmore : Puts isTerm .nothing (whileTrue (orStep below stop)) :=
    .whileTrue ((Puts.eat _).bind fun _ => .ite
      (fun _ => (puts_searchNot hbelow).puts.bind fun _ => .pure _) fun _ => Puts.pure _)
  refine .marked fun n => (puts_searchNot hbelow n).bind fun _ => .asking (.isAt _) fun _ =>
    .ite (fun _ => ?_) fun _ => .pure fun _ hc => hc
  exact .wrapFrom (hmore.after 0 fun _ hc => hc.only) (fun _ hc => ⟨trivial, hc⟩)
    (one_singleton rfl)

theorem puts_searchTerms (hbelow : InnersForm below) :
    Puts isTerm .nothing (searchTerms below stop) := by
  refine .whileTrue (.asking (.atSearchEnd _) fun _ => .ite (fun _ => Puts.pure _) fun _ => ?_)
  refine (Puts.eat _).bind fun _ => .ite (fun _ => Puts.pure _) fun _ => ?_
  exact (puts_searchOr hbelow).puts.bind fun _ => .pure _

theorem puts_searchExpr (hbelow : InnersForm below) :
    PutsNode .searchExpr .nothing (searchExpr below stop) :=
  .node (puts_searchTerms hbelow) fun _ _ hc => ⟨trivial, hc⟩

theorem puts_whereClause (hbelow : InnersForm below) :
    PutsNode .whereClause .nothing (whereClause below stop) := by
  refine .node (Forms.bump.bind (N := fun _ c => One (· == .searchExpr) c.parts)
    (fun _ => puts_searchExpr hbelow) fun _ _ c d hc hd => ?_) fun _ _ hc => ⟨trivial, hc⟩
  rw [Content.parts_append, hc, hd]
  exact one_singleton rfl

/-! ## Expressions -/

theorem puts_expression (hbelow : InnersForm below) :
    PutsOne isExpression .nothing (expression below) := hbelow.expression 0

theorem puts_parenArguments (hbelow : InnersForm below) :
    Puts isExpression .nothing (parenArguments below) := by
  rw [parenArguments_eq]
  refine Puts.group ((Forms.expect _ _).mono fun _ _ hc => hc.2) ?_
  refine .asking (.isAt _) fun _ => .ite (fun _ => Puts.pure _) fun _ => .asking .atStageEnd
    fun _ => .ite (fun _ => Puts.pure _) fun _ => Puts.whileTrue ?_
  exact (puts_expression hbelow).puts.bind fun _ => .eat _

theorem puts_argList (hbelow : InnersForm below) :
    PutsNode .argList .nothing (node .argList (parenArguments below)) :=
  .node (puts_parenArguments hbelow) fun _ _ hc => ⟨trivial, hc⟩

theorem puts_callExpr (hbelow : InnersForm below) :
    PutsNode .callExpr (.here k) (callExpr below) := by
  refine .node (Forms.bumpHere.bind (N := fun _ c => c = .word k ++ .part .argList)
    (fun _ => puts_argList hbelow) fun _ _ c d hc hd => by rw [hc, hd]) fun _ c hc => ?_
  subst hc
  exact ⟨List.cons_ne_nil _ _, one_singleton rfl⟩

theorem puts_parenExpr (hbelow : InnersForm below) :
    PutsNode .parenExpr .nothing (node .parenExpr (pushOpener .lparen >>= fun _ => bump >>= fun _ =>
      expression below >>= fun _ => close .rparen .unclosedParen)) := by
  refine .node (Forms.group .bump (puts_expression hbelow)) fun _ c hc => ?_
  obtain ⟨_, d, hd, hparts⟩ := hc
  exact ⟨trivial, hparts ▸ hd⟩

theorem puts_fieldRef : PutsNode .fieldRef (.here k) (single .fieldRef) :=
  singleNode rfl ⟨k, rfl⟩

/-- What is no operand is noted. -/
theorem puts_noOperand {sight : Sight} : PutsOne isExpression sight (atStageEnd >>= fun b =>
    if b = true then report .expectedExpression
    else currentText >>= fun w => refuseWith .expectedExpression ("found " ++ ticked w)) :=
  .asking .atStageEnd fun _ => .ite (fun _ => .noisy (.report _)) fun _ =>
    .asking .currentText fun _ => .noisy (.refuseWith _ _)

theorem forms_atCallee {M : Unit → Content → Prop} {f : Bool → Parser Unit}
    (hyes : ∀ k, Forms M (.here k) (f true)) (hno : Forms M .nothing (f false)) :
    Forms M .nothing (atCallee >>= f) := by
  simp only [atCallee, bind_assoc, choice_bind, pure_bind]
  refine .ask (.asking .currentText fun _ => hno) fun k => .asking .currentText fun _ =>
    .ite (fun _ => .asking (.isAhead _) fun b => ?_) fun _ => hno.blind
  cases b with
  | true => exact hyes k
  | false => exact hno.blind

theorem puts_operand (hbelow : InnersForm below) :
    PutsOne isExpression .nothing (operand below) := by
  refine forms_atCallee (fun k => (puts_callExpr hbelow).one rfl) (.ask puts_noOperand fun k => ?_)
  split
  · exact .blind ((puts_parenExpr hbelow).one rfl)
  · refine .asking .currentText fun w => ?_
    cases Text.beginsWith '\'' w with
    | true => exact puts_fieldRef.one rfl
    | false => exact puts_literal.one rfl
  iterate 4 exact puts_literal.one rfl
  iterate 2 exact puts_fieldRef.one rfl
  iterate 2 exact .noisy (.report _)
  · exact .ite (fun _ => puts_fieldRef.one rfl) fun _ => puts_noOperand

theorem puts_signedOperand (hbelow : InnersForm below) :
    PutsOne isExpression .nothing (signedOperand below) := by
  have hunary (k : Kind) : PutsOne isExpression (.here k) (node .unaryExpr (bump >>= fun _ =>
      expressionFrom below signStrength)) := by
    refine PutsNode.one (.node (Forms.bumpHere.bind (N := fun _ c => c.words ≠ [] ∧
      One isExpression c.parts) (fun _ => hbelow.expression _) fun _ _ c d hc hd => ?_)
      fun _ _ hc => ⟨hc.1, hc.2⟩) rfl
    subst hc
    exact ⟨List.cons_ne_nil _ _, hd⟩
  refine .ask (puts_operand hbelow) fun k => ?_
  split
  · exact hunary k
  · exact hunary k
  · exact (puts_operand hbelow).blind

/-- An operator between two operands. -/
theorem carries_rightOperand (hbelow : InnersForm below) (least : Nat) :
    Carries 0 (fun c => One isExpression c.parts) (fun _ c => Shape.binaryExpr.Holds c) (.here k)
      (bump >>= fun _ => expressionFrom below least) := by
  refine (Forms.frame (L := fun _ e => ∃ c, One isExpression c.parts ∧ e = c ++ .word k)
    Forms.bumpHere fun c _ _ hc hd => ⟨c, hc, by rw [hd]⟩).bind fun _ =>
      (hbelow.expression least).frame fun e _ d he hd => ?_
  obtain ⟨c, hc, rfl⟩ := he
  refine ⟨?_, c.parts, d.parts, hc, hd, ?_⟩
  · exact List.append_ne_nil_of_left_ne_nil
      (List.append_ne_nil_of_right_ne_nil c.words (List.cons_ne_nil k [])) d.words
  · rw [Content.parts_append, Content.parts_append, Content.word, List.append_nil]

/-- An operand together with those after it is one expression. -/
theorem carries_operatorStep (hbelow : InnersForm below) (least start : Nat) :
    Carries start (fun c => One isExpression c.parts) (fun _ c => One isExpression c.parts) .nothing
      (operatorStep below least start) := by
  refine .ask (.pure fun _ hc => hc) fun k => ?_
  dsimp only
  split
  · exact .pure fun _ hc => hc
  · refine .ite (fun _ => .pure fun _ hc => hc) fun _ => .ite (fun _ => .asking (.isAhead _)
      fun _ => .ite (fun _ => ?_) fun _ => .pure fun _ hc => hc) fun _ => ?_
    · refine Carries.bind (M := fun _ c => One isExpression c.parts) ?_ fun _ =>
        .pure fun _ hc => hc
      have hlist := (Puts.bump.bind fun _ => puts_parenArguments hbelow).after
        (I := fun c => One isExpression c.parts) 0 fun _ hc => hc.only
      exact .wrapFrom hlist.blind (fun _ hc => ⟨trivial, hc⟩) (one_singleton rfl)
    · refine Carries.bind (M := fun _ c => One isExpression c.parts) ?_ fun _ =>
        .pure fun _ hc => hc
      exact .wrapFrom (carries_rightOperand hbelow _) (fun _ hc => hc) (one_singleton rfl)

theorem puts_operators (hbelow : InnersForm below) (least : Nat) :
    PutsOne isExpression .nothing (operators below least) :=
  .marked fun n => (puts_signedOperand hbelow n).bind fun _ =>
    .whileTrue (carries_operatorStep hbelow least n)

end Nested

end SplQuery.Grammar
