import SplQuery.Proofs.Formed.Parts
import SplQuery.Proofs.Made.Command

/-!
# What commands put in

The arguments of each command where it notes nothing. Most of them are plain; a command that
computes, aggregates or holds queries has parts of its own, of some of them one at the most.
-/

namespace SplQuery.Grammar

open SplQuery.Parser Shape

variable {below : Option Inner} {k : Kind}

/-- An option among other arguments, and something answered. -/
theorem Puts.option {member : Shape → Bool} {α : Type} (a : α)
    (h : ∀ s, isPlainPart s = true → member s = true) :
    Puts member .nothing (optionArg >>= fun _ => pure a) :=
  (plain_optionArg.wider h).bind fun _ => .pure _

/-! ## Commands that aggregate -/

theorem puts_aggregation (hbelow : InnersForm below) :
    PutsNode .aggregation (.here k) (aggregation below) := by
  have hname : Plain .nothing (eat (.clause .as) >>= fun b =>
      if b = true then aliasName else pure ()) :=
    (Puts.eat _).bind fun _ => .ite (fun _ => plain_fieldOr _) fun _ => Puts.pure _
  have hrest : Forms (fun _ c => Shape.aggregation.PartsFit c.parts) .nothing
      (isAt .lparen >>= fun b => if b = true then node .argList (parenArguments below) >>= fun _ =>
        eat (.clause .as) >>= fun b => if b = true then aliasName else pure ()
      else eat (.clause .as) >>= fun b => if b = true then aliasName else pure ()) :=
    .asking (.isAt _) fun _ => .ite
      (fun _ => (puts_argList hbelow).bind (fun _ => hname) fun _ _ c d hc hd =>
        ⟨d.parts, hd, .inr (hc ▸ rfl)⟩)
      fun _ => hname.mono fun _ c hc => ⟨c.parts, hc, .inl rfl⟩
  refine .node (Forms.bumpHere.bind (fun _ => hrest) fun _ _ c d hc hd => ?_) fun _ c hc => hc
  subst hc
  exact ⟨List.cons_ne_nil _ _, hd⟩

/-- The next option or aggregation, if there is one. -/
theorem puts_aggregationStep (hbelow : InnersForm below) {member : Shape → Bool}
    (hmember : ∀ s, isAggregating s = true → member s = true) (count : Nat) (kind : Option Kind) :
    Puts member (kind.elim .nothing .here) (atOption >>= fun b =>
      if b = true then optionArg >>= fun _ => pure (ForInStep.yield count)
      else if kind.any Kind.startsAggregation = true then
        aggregation below >>= fun _ => pure (.yield (count + 1))
      else pure (.done count)) := by
  have hplain (s : Shape) (hs : isPlainPart s = true) : member s = true :=
    hmember s (isAggregating_of_isPlainPart hs)
  refine .asking .atOption fun _ => .ite (fun _ => .blind (Puts.option _ hplain)) fun _ =>
    .ite (fun hkind => ?_) fun _ => Puts.pure _
  cases kind with
  | none => cases hkind
  | some k => exact ((puts_aggregation hbelow).puts (hmember _ rfl)).bind fun _ => .pure _

theorem puts_statsBody (hbelow : InnersForm below) :
    Puts isAggregating .nothing (statsBody below) := by
  have hstep := puts_aggregationStep hbelow (fun _ hs => hs)
  have hclause {p : Parser Unit} (h : Plain .nothing p) (count : Nat) {sight : Sight} :
      Puts isAggregating sight (p >>= fun _ => pure (ForInStep.yield count)) :=
    .blind ((h.wider fun _ => isAggregating_of_isPlainPart).bind fun _ => .pure _)
  refine Puts.bind (.loop fun count => ?_) fun _ => .ite (fun _ => .noisy (.report _)) fun _ =>
    Puts.pure _
  refine .asking .atStageEnd fun _ => .ite (fun _ => Puts.pure _) fun _ =>
    .ask (hstep count none) fun k => ?_
  split
  · exact hclause Puts.bump _
  · exact hclause plain_byClause _
  · exact hclause plain_byClause _
  · exact hclause plain_overClause _
  · exact hstep count (some k)

theorem plain_fromSource : Plain .nothing fromSource := by
  refine PutsNode.puts (plainNode (Puts.bump.bind fun _ => .asking .atOption fun _ =>
    .ite (fun _ => plain_optionArg) fun _ => ?_) rfl rfl) rfl
  exact .asking (.isIn _) fun _ => .ite (fun _ => plain_argument) fun _ => .noisy (.reportWith _ _)

theorem puts_tstatsBody (hbelow : InnersForm below) :
    Puts isAggregatingWhere .nothing (tstatsBody below) := by
  have hstep := puts_aggregationStep hbelow fun _ => isAggregatingWhere_of_isAggregating
  have hclause {p : Parser Unit} (h : Puts isAggregatingWhere .nothing p) (count : Nat)
      {sight : Sight} :
      Puts isAggregatingWhere sight (p >>= fun _ => pure (ForInStep.yield count)) :=
    .blind (h.bind fun _ => .pure _)
  have hplain {p : Parser Unit} (h : Plain .nothing p) : Puts isAggregatingWhere .nothing p :=
    h.wider fun _ hs => isAggregatingWhere_of_isAggregating (isAggregating_of_isPlainPart hs)
  refine Puts.bind (.loop fun count => ?_) fun _ => .ite (fun _ => .noisy (.report _)) fun _ =>
    Puts.pure _
  refine .asking .atStageEnd fun _ => .ite (fun _ => Puts.pure _) fun _ =>
    .ask (hstep count none) fun k => ?_
  split
  · exact hclause Puts.bump _
  · exact hclause (hplain plain_fromSource) _
  · exact hclause ((puts_whereClause hbelow).puts rfl) _
  · exact hclause (hplain plain_byClause) _
  · exact hclause (hplain plain_byClause) _
  · exact hstep count (some k)

theorem plain_topBody : Plain .nothing topBody := by
  refine plain_leadingNumber.bind fun _ => Puts.bind (.loop fun count => ?_) fun _ =>
    .ite (fun _ => .noisy (.report _)) fun _ => Puts.pure _
  refine .asking .atStageEnd fun _ => .ite (fun _ => Puts.pure _) fun _ =>
    .asking .current fun k => ?_
  split
  · exact Puts.bump.bind fun _ => .pure _
  · exact plain_byClause.bind fun _ => .pure _
  · exact plain_byClause.bind fun _ => .pure _
  · refine .asking .atOption fun _ => .ite (fun _ => plain_optionArg.bind fun _ => .pure _)
      fun _ => .ite (fun _ => ?_) fun _ => Puts.pure _
    exact (plain_fieldList _).bind fun _ => .pure _

theorem plain_featuresClause : Plain .nothing featuresClause :=
  PutsNode.puts (plainNode (Puts.bump.bind fun _ => (plain_fieldList _).bind fun _ =>
    .ite (fun _ => .noisy (.reportWith _ _)) fun _ => Puts.pure _) rfl rfl) rfl

theorem plain_intoClause : Plain .nothing intoClause :=
  PutsNode.puts (plainNode (Puts.bump.bind fun _ => .asking (.isIn _) fun _ =>
    .ite (fun _ => plain_argument) fun _ => .noisy (.reportWith _ _)) rfl rfl) rfl

theorem plain_fitBody : Plain .nothing fitBody := by
  have harguments : Plain .nothing fitArguments := by
    refine .whileTrue (.asking .atStageEnd fun _ => .ite (fun _ => Puts.pure _) fun _ =>
      .asking .current fun k => ?_)
    split
    · exact Puts.bump.bind fun _ => .pure _
    · exact plain_featuresClause.bind fun _ => .pure _
    · exact plain_intoClause.bind fun _ => .pure _
    · exact Puts.bump.bind fun _ => (plain_fieldOr _).bind fun _ => .pure _
    · refine .asking .atOption fun _ => .ite (fun _ => plain_optionArg.bind fun _ => .pure _)
        fun _ => .ite (fun _ => ?_) fun _ => Puts.pure _
      exact (plain_fieldList _).bind fun _ => .pure _
  exact .asking (.andM (.isIn _) (.notM .atOption)) fun _ =>
    .ite (fun _ => plain_argument.bind fun _ => harguments) fun _ => .noisy (.reportWith _ _)

/-! ## Commands that compute fields -/

theorem puts_assignment (hbelow : InnersForm below) :
    PutsNode .assignment .nothing (assignment below) := by
  have hvalue : Forms (fun _ c => One isExpression c.parts) .nothing
      (expect .equals "=" >>= fun b => if b = true then expression below else pure ()) := by
    refine (Forms.expect _ _).bind (K := fun b _ c => b = true → One isExpression c.parts)
      (fun b => .ite (fun _ => ?_) fun hb => .pure fun htrue => absurd htrue hb)
      fun _ _ c d hc hd => ?_
    · exact (puts_expression hbelow).mono fun _ _ hc _ => hc
    · rw [Content.parts_append, hc.2, List.nil_append]
      exact hd hc.1
  refine .node (puts_fieldItem.bind (fun _ => hvalue) fun _ _ c d hc hd => ?_) fun _ _ hc => hc
  subst hc
  exact ⟨trivial, d.parts, hd, rfl⟩

theorem puts_evalBody (hbelow : InnersForm below) :
    Puts (· == .assignment) .nothing (evalBody below) := by
  refine Puts.bind (.loop fun count => ?_) fun _ => .pure _
  refine .asking (.isIn _) fun _ => .ite (fun _ => ?_) fun _ => .ite
    (fun _ => Puts.bind (.noisy (.reportWith _ _)) fun _ => .pure _) fun _ => Puts.pure _
  refine ((puts_assignment hbelow).puts rfl).bind fun _ => (Puts.eat _).bind fun _ =>
    .ite (fun _ => Puts.pure _) fun _ => ?_
  exact .asking .atOption fun _ => Puts.pure _

theorem plain_convertBody : Plain .nothing convertBody := by
  refine Puts.bind (.loop fun count => ?_) fun _ => .ite (fun _ => .noisy (.reportWith _ _))
    fun _ => Puts.pure _
  refine .asking .atStageEnd fun _ => .ite (fun _ => Puts.pure _) fun _ =>
    (Puts.eat _).bind fun _ => .ite (fun _ => Puts.pure _) fun _ => ?_
  refine .asking .atOption fun _ => .ite (fun _ => plain_optionArg.bind fun _ => .pure _)
    fun _ => ?_
  exact .asking .atFieldCall fun _ => .ite (fun _ => plain_fieldCall.bind fun _ => .pure _)
    fun _ => Puts.pure _

theorem plain_replacement : Plain .nothing replacement := by
  refine PutsNode.puts (plainNode (plain_argument.bind fun _ => (Puts.expect _ _).bind fun _ =>
    .ite (fun _ => ?_) fun _ => Puts.pure _) rfl rfl) rfl
  exact .asking (.isIn _) fun _ => .ite (fun _ => plain_argument) fun _ => .noisy (.reportWith _ _)

theorem plain_replaceBody : Plain .nothing replaceBody := by
  have hfields : Plain .nothing (eat (.clause .inWord) >>= fun b => if b = true then
      fieldList nowhere >>= fun n => if (n == 0) = true then
        reportWith .expectedField "after \x60in\x60" else pure () else pure ()) :=
    (Puts.eat _).bind fun _ => .ite (fun _ => (plain_fieldList _).bind fun _ =>
      .ite (fun _ => .noisy (.reportWith _ _)) fun _ => Puts.pure _) fun _ => Puts.pure _
  refine Puts.bind (.loop fun count => ?_) fun _ => .ite
    (fun _ => Puts.bind (.noisy (.reportWith _ _)) fun _ => hfields) fun _ => hfields
  refine .asking (.orM .atStageEnd (.isAt _)) fun _ => .ite (fun _ => Puts.pure _) fun _ =>
    (Puts.eat _).bind fun _ => .ite (fun _ => Puts.pure _) fun _ => ?_
  exact .asking (.isIn _) fun _ => .ite (fun _ => plain_replacement.bind fun _ => .pure _)
    fun _ => Puts.pure _

theorem plain_strcatBody : Plain .nothing strcatBody := by
  refine Puts.bind (.loop fun count => ?_) fun _ => .ite (fun _ => .noisy (.reportWith _ _))
    fun _ => Puts.pure _
  refine .asking .atStageEnd fun _ => .ite (fun _ => Puts.pure _) fun _ =>
    (Puts.eat _).bind fun _ => .ite (fun _ => Puts.pure _) fun _ => .ask ?_ fun k => ?_
  · exact .asking .atOption fun _ => .ite (fun _ => plain_optionArg.bind fun _ => .pure _)
      fun _ => .asking .currentText fun _ => .ite (fun h => absurd h Bool.false_ne_true)
      fun _ => .ite (fun h => absurd h Bool.false_ne_true) fun _ => Puts.pure _
  · refine .asking .atOption fun _ => .ite
      (fun _ => .blind (plain_optionArg.bind fun _ => Puts.pure _)) fun _ => .asking .currentText
      fun _ => .ite (fun _ => ?_) fun _ => .ite (fun _ => .blind ?_) fun _ => Puts.pure _
    · exact (puts_literal.puts rfl).bind fun _ => .pure _
    · exact plain_fieldItem.bind fun _ => .pure _

theorem plain_trendlineBody : Plain .nothing trendlineBody := by
  refine Puts.bind (.loop fun count => ?_) fun _ => .ite (fun _ => .noisy (.reportWith _ _))
    fun _ => Puts.pure _
  refine .asking .atStageEnd fun _ => .ite (fun _ => Puts.pure _) fun _ =>
    (Puts.eat _).bind fun _ => .ite (fun _ => Puts.pure _) fun _ => ?_
  exact .asking .atFieldCall fun _ => .ite (fun _ => plain_fieldCall.bind fun _ => .pure _)
    fun _ => Puts.pure _

/-! ## Commands that extract and look up -/

theorem plain_rexBody : Plain .nothing rexBody := by
  refine Puts.bind (.loop fun found => ?_) fun _ => .ite (fun _ => Puts.pure _) fun _ =>
    .noisy (.reportWith _ _)
  refine .asking .atStageEnd fun _ => .ite (fun _ => Puts.pure _) fun _ => .asking .atOption
    fun _ => .ite (fun _ => plain_optionArg.bind fun _ => .pure _) fun _ => ?_
  exact .asking (.andM (.pure _) (.isAt _)) fun _ =>
    .ite (fun _ => Puts.bump.bind fun _ => .pure _) fun _ => Puts.pure _

theorem plain_regexPattern : Plain .nothing regexPattern := by
  refine .asking .current fun k => ?_
  split
  · exact Puts.bump
  · exact .ite (fun _ => plain_argument) fun _ => .noisy (.reportWith _ _)

theorem plain_regexBody : Plain .nothing regexBody :=
  .asking (.isIn _) fun _ => .ite (fun _ => .asking .ahead fun _ =>
    .ite (fun _ => Puts.bump.bind fun _ => Puts.bump.bind fun _ => plain_regexPattern)
      fun _ => plain_regexPattern) fun _ => plain_regexPattern

theorem plain_outputClause : Plain .nothing outputClause :=
  PutsNode.puts (plainNode (Puts.bump.bind fun _ => (plain_aliasedFieldList _).bind fun _ =>
    .ite (fun _ => .noisy (.reportWith _ _)) fun _ => Puts.pure _) rfl rfl) rfl

theorem plain_lookupBody : Plain .nothing lookupBody := by
  have houtput : Plain .nothing (options >>= fun _ => isIn startsOutput >>= fun b =>
      if b = true then outputClause else pure ()) :=
    plain_options.bind fun _ => .asking (.isIn _) fun _ =>
      .ite (fun _ => plain_outputClause) fun _ => Puts.pure _
  refine plain_options.bind fun _ => .asking (.isIn _) fun _ => .ite (fun _ => ?_) fun _ =>
    .noisy (.reportWith _ _)
  exact plain_argument.bind fun _ => (plain_aliasedFieldList _).bind fun _ => .ite
    (fun _ => Puts.bind (.noisy (.reportWith _ _)) fun _ => houtput) fun _ => houtput

/-- The `where` clause stands behind all that is plain. -/
theorem forms_inputlookupBody (hbelow : InnersForm below) :
    Forms (fun _ c => Shape.inputlookupCommand.PartsFit c.parts) .nothing
      (inputlookupBody below) := by
  have hafter {α : Type} {p : Parser α} {f : α → Parser Unit} (hp : Plain .nothing p)
      (hf : ∀ a, Forms (fun _ c => Shape.inputlookupCommand.PartsFit c.parts) .nothing (f a)) :
      Forms (fun _ c => Shape.inputlookupCommand.PartsFit c.parts) .nothing (p >>= f) := by
    refine Forms.bind hp hf fun _ _ c d hc hd => ⟨?_, ?_⟩
    · exact only_append.mpr ⟨hc.mono fun _ => isSearchedOrPlain_of_isPlainPart, hd.1⟩
    · rw [Content.parts_append, List.countP_append,
        hc.countP_eq_zero (fun _ => ne_of_isPlainPart rfl), Nat.zero_add]
      exact hd.2
  have hwhere : Forms (fun _ c => Shape.inputlookupCommand.PartsFit c.parts) .nothing
      (options >>= fun _ => isAt (.command .whereWord) >>= fun b =>
        if b = true then whereClause below nowhere else pure ()) := by
    refine hafter plain_options fun _ => .asking (.isAt _) fun _ => .ite (fun _ => ?_)
      fun _ => .pure ⟨only_nil, Nat.zero_le 1⟩
    exact ((puts_whereClause hbelow).one rfl).mono fun _ c (hc : One isSearchedOrPlain c.parts) =>
      ⟨hc.only, hc.countP_le⟩
  exact hafter plain_options fun _ => .asking (.andM (.isIn _) (.notM (.isAt _))) fun _ =>
    .ite (fun _ => hafter plain_argument fun _ => hwhere) fun _ =>
      hafter (.noisy (.reportWith _ _)) fun _ => hwhere

/-! ## Commands that select events and fields -/

theorem puts_whereBody (hbelow : InnersForm below) :
    PutsOne isExpression .nothing (whereBody below) :=
  .asking .atStageEnd fun _ => .ite (fun _ => .noisy (.report _)) fun _ => puts_expression hbelow

theorem plain_tableBody : Plain .nothing tableBody :=
  (plain_fieldList _).bind fun _ => .ite (fun _ => .noisy (.report _)) fun _ => Puts.pure _

theorem plain_direction : Plain .nothing direction :=
  .asking (.orM (.isAt _) (.isAt _)) fun _ => .ite (fun _ => Puts.bump) fun _ => Puts.pure _

theorem plain_fieldsBody : Plain .nothing fieldsBody :=
  plain_direction.bind fun _ => plain_tableBody

theorem plain_sortField : Plain .nothing sortField :=
  PutsNode.puts (plainNode (plain_direction.bind fun _ => .asking .atFieldCall fun _ =>
    .ite (fun _ => plain_fieldCall) fun _ => plain_fieldOr _) rfl rfl) rfl

theorem plain_sortFields : Plain .nothing sortFields := by
  refine .loop fun count => (Puts.eat _).bind fun _ => .ite (fun _ => Puts.pure _) fun _ => ?_
  refine .asking (.orM .atStageEnd (.orM .atOption (.notM (.isIn _)))) fun _ =>
    .ite (fun _ => Puts.pure _) fun _ => ?_
  exact plain_sortField.bind fun _ => .pure _

theorem plain_dedupBody : Plain .nothing dedupBody := by
  refine plain_leadingNumber.bind fun _ => Puts.bind (.loop fun count => ?_) fun _ =>
    .ite (fun _ => .noisy (.report _)) fun _ => Puts.pure _
  refine .asking .atStageEnd fun _ => .ite (fun _ => Puts.pure _) fun _ => .asking .current
    fun k => .ite (fun _ => Puts.bump.bind fun _ => .pure _) fun _ => .asking .atOption fun _ =>
    .ite (fun _ => plain_optionArg.bind fun _ => .pure _) fun _ => .ite (fun _ => ?_) fun _ =>
    .ite (fun _ => (plain_fieldList _).bind fun _ => .pure _) fun _ => Puts.pure _
  exact Puts.bump.bind fun _ => plain_sortFields.bind fun _ => .pure _

theorem plain_sortBody : Plain .nothing sortBody := by
  refine plain_leadingNumber.bind fun _ => Puts.bind (.loop fun count => ?_) fun _ =>
    .ite (fun _ => .noisy (.report _)) fun _ => Puts.pure _
  refine .asking .atStageEnd fun _ => .ite (fun _ => Puts.pure _) fun _ =>
    (Puts.eat _).bind fun _ => .ite (fun _ => Puts.pure _) fun _ => .asking .atOption fun _ =>
    .ite (fun _ => plain_optionArg.bind fun _ => .pure _) fun _ => ?_
  have hfields : Plain .nothing (sortFields >>= fun n => pure (if (count + n == 0) = true then
      ForInStep.done (count + n) else .yield (count + n))) :=
    plain_sortFields.bind fun _ => .pure _
  exact .ite (fun _ => .asking (.isIn _) fun _ => .ite (fun _ => hfields) fun _ => Puts.pure _)
    fun _ => hfields

/-- What the arguments of `head` have put in so far: one expression at the most, which is the limit
or the condition. -/
def HeadParts.Fit (seen : HeadParts) (c : Content) : Prop :=
  Only isComputedOrPlain c.parts ∧
    c.parts.countP isExpression ≤ if (seen.hasCondition || seen.hasLimit) = true then 1 else 0

theorem HeadParts.Fit.le_one {seen : HeadParts} {c : Content} (h : seen.Fit c) :
    c.parts.countP isExpression ≤ 1 :=
  h.2.trans (by split <;> decide)

/-- The first expression. -/
theorem HeadParts.Fit.add {seen more : HeadParts} {c d : Content} (h : seen.Fit c)
    (hnone : ¬ (seen.hasCondition || seen.hasLimit) = true)
    (hmore : (more.hasCondition || more.hasLimit) = true) (hd : One isExpression d.parts) :
    more.Fit (c ++ d) := by
  refine ⟨only_append.mpr ⟨h.1, hd.only.mono fun s hs => ?_⟩, ?_⟩
  · rw [isComputedOrPlain, hs, Bool.true_or]
  · have hzero := h.2
    rw [if_neg hnone, Nat.le_zero] at hzero
    rw [if_pos hmore, Content.parts_append, List.countP_append, hzero, Nat.zero_add]
    exact hd.countP_le

theorem forms_headBody (hbelow : InnersForm below) :
    Forms (fun _ c => Shape.headCommand.PartsFit c.parts) .nothing (headBody below) := by
  refine Forms.bind (M := HeadParts.Fit) (K := fun _ _ c => c = .none)
    (.loop ⟨only_nil, Nat.le_refl 0⟩ fun m seen => ?_) (fun _ => .pure rfl)
    fun seen _ c d hc hd => ?_
  · have hoption (sight : Sight) : Carries m seen.Fit (fun step c => step.value.Fit c) sight
        (optionArg >>= fun _ => pure (ForInStep.yield seen)) := by
      refine Carries.bind (M := fun _ => seen.Fit) ?_ fun _ => .pure fun _ hc => hc
      refine puts_optionArg.blind.frame fun c _ d hc hd => ?_
      subst hd
      refine ⟨only_append.mpr ⟨hc.1, only_singleton.mpr rfl⟩, ?_⟩
      rw [Content.parts_append, List.countP_append]
      exact hc.2
    have hcondition : Carries m seen.Fit (fun step c => step.value.Fit c) .nothing
        (if (seen.hasCondition || seen.hasLimit) = true then pure (ForInStep.done seen)
          else expression below >>= fun _ => pure (.yield { seen with hasCondition := true })) := by
      refine .ite (fun _ => .pure fun _ hc => hc) fun hnone => ?_
      refine Carries.bind ((puts_expression hbelow).frame fun c _ d hc hd => ?_) fun _ =>
        .pure fun _ hc => hc
      exact hc.add hnone rfl hd
    have hlimit (hnone : ¬ (seen.hasCondition || seen.hasLimit) = true) (k : Kind) :
        Carries m seen.Fit (fun step c => step.value.Fit c) (.here k)
          (numberLiteral >>= fun _ => pure (ForInStep.yield { seen with hasLimit := true })) := by
      have hnumber : PutsOne isExpression (.here k) numberLiteral := puts_literal.one rfl
      refine Carries.bind (hnumber.frame fun c _ d hc hd => ?_) fun _ => .pure fun _ hc => hc
      exact hc.add hnone (Bool.or_true _) hd
    refine .asking .atStageEnd fun _ => .ite (fun _ => .pure fun _ hc => hc) fun _ =>
      .asking .atOption fun _ => .ite (fun _ => hoption _) fun _ => .ask ?_ fun k => ?_
    · refine .ite (fun h => ?_) fun _ => hcondition
      rw [Bool.and_eq_true] at h
      exact absurd h.2 Bool.false_ne_true
    · refine .ite (fun hnumber => ?_) fun _ => hcondition.blind
      refine .asking .ahead fun _ => .ite (fun _ => hcondition.blind) fun _ => hlimit ?_ k
      simp only [Bool.and_eq_true, Bool.not_eq_true'] at hnumber
      rw [hnumber.1.1, hnumber.1.2]
      exact Bool.false_ne_true
  · subst hd
    rw [Content.append_none]
    exact ⟨hc.1, hc.le_one⟩

theorem plain_renameBody : Plain .nothing renameBody := by
  have hpair : Plain .nothing renamePair :=
    PutsNode.puts (plainNode (plain_fieldItem.bind fun _ => (Puts.expect _ _).bind fun _ =>
      .ite (fun _ => plain_fieldOr _) fun _ => Puts.pure _) rfl rfl) rfl
  refine Puts.bind (.loop fun count => (Puts.eat _).bind fun _ => .ite (fun _ => Puts.pure _)
    fun _ => .asking .atStageEnd fun _ => .ite (fun _ => Puts.pure _) fun _ => .asking (.isIn _)
    fun _ => .ite (fun _ => ?_) fun _ => Puts.pure _) fun _ => .ite (fun _ => .noisy (.report _))
    fun _ => Puts.pure _
  exact hpair.bind fun _ => .pure _

/-! ## Free arguments and nested queries -/

theorem puts_freeArgument (hbelow : InnersForm below) (kind : Kind) :
    Puts isArgument .nothing (freeArgument below kind) := by
  have hvalue : Puts isArgument .nothing (if (kind.isGlue || kind == .lparen) = true then
      aliasedArgument else currentText >>= fun w => refuseWith .unexpectedToken (ticked w)) :=
    .ite (fun _ => puts_aliased puts_argument rfl rfl rfl) fun _ =>
      .asking .currentText fun _ => .noisy (.refuseWith _ _)
  unfold freeArgument
  split
  · exact hbelow.subsearch.puts rfl
  · exact Puts.bump
  · exact puts_byClause.puts rfl
  · exact puts_byClause.puts rfl
  · exact puts_overClause.puts rfl
  · exact .noisy (.refuse _)
  · exact .ite (fun _ => .asking (.isAhead _) fun _ =>
      .ite (fun _ => puts_optionArg.puts rfl) fun _ => hvalue) fun _ => hvalue

theorem puts_argumentList (hbelow : InnersForm below) :
    Puts isArgument .nothing (argumentList below) := by
  refine .whileTrue (.asking .atStageEnd fun _ => .ite (fun _ => Puts.pure _) fun _ =>
    .asking .current fun k => ?_)
  split
  · exact Puts.pure _
  · exact (puts_freeArgument hbelow _).bind fun _ => .pure _

/-- What the arguments of `foreach` have put in so far: one query between brackets at the most. -/
def ForeachParts.Fit (seen : ForeachParts) (c : Content) : Prop :=
  Only isFree c.parts ∧ c.parts.countP (· == .subsearch) ≤ if seen.hasBody = true then 1 else 0

theorem ForeachParts.Fit.le_one {seen : ForeachParts} {c : Content} (h : seen.Fit c) :
    c.parts.countP (· == .subsearch) ≤ 1 :=
  h.2.trans (by split <;> decide)

theorem ForeachParts.Fit.plain {seen more : ForeachParts} {c d : Content} (h : seen.Fit c)
    (hmore : more.hasBody = seen.hasBody) (hd : Only isPlainPart d.parts) : more.Fit (c ++ d) := by
  refine ⟨only_append.mpr ⟨h.1, hd.mono fun _ => isFree_of_isPlainPart⟩, ?_⟩
  rw [Content.parts_append, List.countP_append, hd.countP_eq_zero (fun _ => ne_of_isPlainPart rfl),
    hmore]
  exact h.2

/-- The only query between brackets. -/
theorem ForeachParts.Fit.add {seen : ForeachParts} {c : Content} (h : seen.Fit c)
    (hnone : ¬ seen.hasBody = true) :
    ForeachParts.Fit { seen with hasBody := true } (c ++ .part .subsearch) := by
  refine ⟨only_append.mpr ⟨h.1, only_singleton.mpr rfl⟩, ?_⟩
  have hzero := h.2
  rw [if_neg hnone, Nat.le_zero] at hzero
  rw [if_pos rfl, Content.parts_append, List.countP_append, hzero]
  exact Nat.le_refl 1

theorem forms_foreachBody (hbelow : InnersForm below) :
    Forms (fun _ c => Shape.foreachCommand.PartsFit c.parts) .nothing (foreachBody below) := by
  refine Forms.bind (M := ForeachParts.Fit) (K := fun _ _ c => c = .none)
    (.loop ⟨only_nil, Nat.le_refl 0⟩ fun m seen => ?_) (fun seen => ?_) fun seen _ c d hc hd => ?_
  · have hplain {α : Type} {p : Parser α} {f : α → ForeachParts} (h : Plain .nothing p)
        (hf : ∀ a, (f a).hasBody = seen.hasBody) :
        Carries m seen.Fit (fun step c => step.value.Fit c) .nothing
          (p >>= fun a => pure (ForInStep.yield (f a))) := by
      refine Carries.bind (M := fun a => (f a).Fit) (Forms.frame h fun c a d hc hd => ?_) fun _ =>
        .pure fun _ hc => hc
      exact hc.plain (hf a) hd
    refine .asking .atStageEnd fun _ => .ite (fun _ => .pure fun _ hc => hc) fun _ =>
      .ite (fun _ => .pure fun _ hc => hc) fun hnone => .asking .current fun k => ?_
    split
    · exact hplain (f := fun _ => seen) Puts.bump fun _ => rfl
    · refine Carries.bind (hbelow.subsearch.frame fun c _ d hc hd => ?_) fun _ =>
        .pure fun _ hc => hc
      subst hd
      exact hc.add hnone
    · refine .asking .atOption fun _ => .ite
        (fun _ => hplain (f := fun _ => seen) plain_optionArg fun _ => rfl) fun _ =>
        .ite (fun _ => ?_) fun _ => .pure fun _ hc => hc
      exact hplain (plain_fieldList _) fun _ => rfl
  · exact .ite (fun _ => .noisy (.report _)) fun _ => .ite (fun _ => .pure rfl) fun _ =>
      .noisy (.reportWith _ _)
  · subst hd
    rw [Content.append_none]
    exact ⟨hc.1, hc.le_one⟩

theorem plain_returnBody : Plain .nothing returnBody := by
  refine plain_leadingNumber.bind fun _ => .whileTrue (.asking .atStageEnd fun _ =>
    .ite (fun _ => Puts.pure _) fun _ => .asking .current fun k => ?_)
  split
  · exact Puts.bump.bind fun _ => .pure _
  · refine .asking .atOption fun _ => .ite (fun _ => plain_optionArg.bind fun _ => .pure _)
      fun _ => .ite (fun _ => ?_) fun _ => Puts.pure _
    exact plain_fieldItem.bind fun _ => .pure _

/-! ## Whole commands -/

/-- The arguments of a command are what its node may hold. -/
theorem forms_bodyOf (hbelow : InnersForm below) (word : CommandWord) :
    Forms (fun _ c => (shapeOf word).PartsFit c.parts) .nothing (bodyOf below word) := by
  have hsearch : PutsOne (· == .searchExpr) .nothing (searchBody below) :=
    (puts_searchExpr hbelow).one rfl
  have hinputlookup : Forms (fun _ c => Only isSearchedOrPlain c.parts ∧
      c.parts.countP (· == .whereClause) ≤ 1) .nothing (inputlookupBody below) :=
    forms_inputlookupBody hbelow
  have hhead : Forms (fun _ c => Only isComputedOrPlain c.parts ∧
      c.parts.countP isExpression ≤ 1) .nothing (headBody below) :=
    forms_headBody hbelow
  have hforeach : Forms (fun _ c => Only isFree c.parts ∧
      c.parts.countP (· == .subsearch) ≤ 1) .nothing (foreachBody below) :=
    forms_foreachBody hbelow
  cases word <;> simp only [bodyOf, shapeOf, PartsFit] <;> with_reducible first
    | exact puts_argumentList hbelow
    | exact puts_statsBody hbelow
    | exact puts_evalBody hbelow
    | exact plain_topBody
    | exact hsearch
    | exact puts_whereBody hbelow
    | exact puts_tstatsBody hbelow
    | exact plain_renameBody
    | exact plain_rexBody
    | exact plain_regexBody
    | exact plain_lookupBody
    | exact hinputlookup
    | exact plain_tableBody
    | exact plain_fieldsBody
    | exact plain_dedupBody
    | exact plain_sortBody
    | exact hhead
    | exact plain_convertBody
    | exact plain_replaceBody
    | exact plain_strcatBody
    | exact plain_trendlineBody
    | exact plain_returnBody
    | exact plain_fitBody
    | exact hforeach

end SplQuery.Grammar
