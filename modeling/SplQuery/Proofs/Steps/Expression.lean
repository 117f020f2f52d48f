import SplQuery.Grammar.Expression
import SplQuery.Proofs.Steps.Search

/-!
# What expressions may do

An operand need not read anything: where none starts, the lack is noted. The operators after it are
read one by one, so that the repetition over them comes to an end.
-/

namespace SplQuery.Grammar

open SplQuery.Parser State

variable {s t : State} {k : Kind} {below : Option Inner}

theorem expressionFrom_ends (hbelow : Fits below) (least : Nat) (s : State) :
    Ends (expressionFrom below least) s fun _ t => Passes 2 s t :=
  descend_ends fun inner hinner => (hbelow inner hinner).expression least

theorem expression_ends (hbelow : Fits below) (s : State) :
    Ends (expression below) s fun _ t => Passes 2 s t :=
  expressionFrom_ends hbelow 0 s

theorem parenArguments_ends (hbelow : Fits below) (s : State) :
    Ends (parenArguments below) s fun _ t => Passes 10 s t := by
  refine (pushOpener_ends .lparen s).bind fun _ t ht => ?_
  refine (expect_ends .lparen "(" t).bind fun _ u hu => ?_
  have hrest {v : State} (hv : Passes 9 t v) :
      Ends (close .rparen .unclosedParen) v fun _ w => Passes 10 s w :=
    (close_ends _ _ v).mono fun _ _ hw => ht.passes hv hw
  refine (Stays.refl u).asks_isAt fun v hv => ?_
  split
  · exact hrest ((hu.trans hv.passes).le (by decide))
  · refine hv.asks_atStageEnd fun w hw => ?_
    split
    · exact hrest ((hu.trans hw.passes).le (by decide))
    · refine (whileTrue_passes (m := 3) (k := 3) (by decide) fun x => ?_).bind fun _ x hx => ?_
      · refine (expression_ends hbelow x).bind fun _ y hy => ?_
        refine (eat_ends .comma y).mono fun more z hz => ?_
        obtain ⟨rfl, -, hz⟩ | ⟨rfl, -, hz⟩ := hz
        · exact .inl ⟨rfl, hy.reads hz⟩
        · exact .inr ⟨rfl, hy.trans hz.passes, trivial⟩
      · exact hrest ((hu.trans (hw.passes.trans hx)).le (by decide))

theorem atCallee_ends (s : State) :
    Ends atCallee s fun b t => Stays 1 s t ∧ (b = true → ∃ k, s.next? = some k) := by
  refine (Stays.refl s).asks_current fun t ht => ?_
  refine ht.asks_text fun text u hu => ?_
  split
  · next h =>
    refine (isAhead_ends .lparen u).mono fun b v ⟨hv, hb⟩ => ⟨hu.trans hv, fun _ => ?_⟩
    rcases hk : s.next? with _ | k
    · rw [hk] at h
      exact absurd h Bool.false_ne_true
    · exact ⟨k, rfl⟩
  · exact .pure ⟨hu, fun h => nomatch h⟩

theorem callExpr_ends (hbelow : Fits below) (h : s.next? = some k) :
    Ends (callExpr below) s fun _ t => Reads 10 s t :=
  node_bump_ends h fun _ => node_passes (parenArguments_ends hbelow _)

theorem operand_ends (hbelow : Fits below) (s : State) :
    Ends (operand below) s fun _ t => Passes 12 s t := by
  refine (atCallee_ends s).bind fun b t ⟨ht, hb⟩ => ?_
  split
  · next h =>
    obtain ⟨k, hk⟩ := hb h
    exact ht.passes.reading (by decide) (callExpr_ends hbelow (ht.next?.trans hk))
  · have hsingle {n : Nat} {k : Kind} {u : State} {shape : Shape} (hu : Stays n s u) (hn : n ≤ 9)
        (hk : s.next? = some k) : Ends (single shape) u fun _ v => Passes 12 s v :=
      hu.passes.reading (by omega) (single_ends (hu.next?.trans hk))
    have hread {p : Parser Unit} {n : Nat} {u : State} (hu : Stays n s u)
        (hn : n ≤ 9) (hp : Ends p u fun _ v => Reads 3 u v) :
        Ends p u fun _ v => Passes 12 s v :=
      hp.mono fun _ _ hv => (hu.passes.reads hv).passes.le (by omega)
    have hreport {n : Nat} {u : State} (hu : Stays n s u) (hn : n ≤ 12) :
        Ends (report .expectedExpression) u fun _ v => Passes 12 s v :=
      (report_ends _ u).mono fun _ _ hv => (hu.trans hv).passes.le hn
    refine ht.asks_current fun u hu => ?_
    have hnext := hu.next?
    split
    · next hk =>
      refine hread hu (by decide) (node_reads ((pushOpener_ends .lparen _).bind fun _ v hv => ?_))
      have hv' : v.next? = some .lparen :=
        hv.next?.trans ((next?_opened u).trans (hnext.trans hk))
      refine (bump_ends_of_next? hv').bind fun _ w hw => ?_
      refine (expression_ends hbelow w).bind fun _ x hx => ?_
      exact (close_ends _ _ x).mono fun _ _ hy => hv.reads (hw.trans hx) hy
    · next hk =>
      refine hu.asks_text fun text v hv => ?_
      exact hsingle hv (by decide) hk
    iterate 6
      next hk => exact hsingle hu (by decide) hk
    · exact hreport hu (by decide)
    · exact hreport hu (by decide)
    · split
      · next hword =>
        obtain ⟨k, hk, -⟩ := next?_of_any hword
        exact hsingle hu (by decide) hk
      · refine hu.asks_atStageEnd fun v hv => ?_
        split
        · exact hreport hv (by decide)
        · next hend =>
          obtain ⟨k, hk⟩ := next?_of_not_atEnd (Bool.eq_false_iff.mpr hend)
          refine hv.asks_text fun text w hw => ?_
          exact hread hw (by decide) ((refuseWith_ends (hw.next?.trans hk)).mono fun _ _ h =>
            h.le (by decide))

theorem signedOperand_ends (hbelow : Fits below) (s : State) :
    Ends (signedOperand below) s fun _ t => Passes 13 s t := by
  refine (Stays.refl s).asks_current fun t ht => ?_
  have hsign {k : Kind} (hk : s.next? = some k) : Ends (node .unaryExpr do
      bump
      expressionFrom below signStrength) t fun _ u => Passes 13 s u := by
    refine ht.passes.reading (n := 2) (by decide) (node_bump_ends (ht.next?.trans hk) ?_)
    exact expressionFrom_ends hbelow _
  split
  · next hk => exact hsign hk
  · next hk => exact hsign hk
  · exact ht.passes.andThen (by decide) (operand_ends hbelow t)

theorem operators_ends (hbelow : Fits below) (least : Nat) (s : State) :
    Ends (operators below least) s fun _ t => Passes 25 s t := by
  refine (mark_ends s).bind fun start t ht => ?_
  refine (signedOperand_ends hbelow t).bind fun _ u hu => ?_
  refine (ht.passes.trans hu).andThen (n := 12) (by decide) ?_
  refine whileTrue_passes (m := 11) (k := 1) (by decide) fun v => ?_
  refine (Stays.refl v).asks_current fun w hw => ?_
  split
  · exact hw.answersNo (by decide) trivial
  · next kind hk =>
    split
    · exact hw.answersNo (by decide) trivial
    · split
      · exact hw.answersNo (by decide) trivial
      · split
        · refine hw.asks_isAhead fun x hx => ?_
          split
          · refine hx.answersYes (r := 10) (by decide) ?_
            exact wrapFrom_bump_ends (hx.next?.trans hk) (parenArguments_ends hbelow)
          · exact hx.answersNo (by decide) trivial
        · exact hw.answersYes (by decide) (wrapFrom_bump_ends (n := 10) (hw.next?.trans hk) fun x =>
            (expressionFrom_ends hbelow _ x).mono fun _ _ h => h.le (by decide))

end SplQuery.Grammar
