import SplQuery.Grammar.Search
import SplQuery.Proofs.Steps.Parts

/-!
# What searches may do

Terms read a lexeme wherever a term can start, so that the repetition over them comes to an end.
What is nested costs what going down a level costs.
-/

namespace SplQuery.Grammar

open SplQuery.Parser State

variable {s t : State} {k : Kind} {below : Option Inner} {stop : Kind → Bool}

/-! ## Nested queries and values -/

theorem subsearch_ends (hbelow : Fits below) (h : s.next? = some .lbracket) :
    Ends (subsearch below) s fun _ t => Reads 4 s t := by
  refine (require_ends (by rw [h]; rfl)).bind fun _ t ht => ?_
  refine ht.passes.andReads (n := 3) (by decide) (node_reads ?_)
  refine (pushOpener_ends .lbracket _).bind fun _ u hu => ?_
  have hnext : u.next? = some .lbracket :=
    hu.next?.trans ((next?_opened t).trans (ht.next?.trans h))
  refine (bump_ends_of_next? hnext).bind fun _ v hv => ?_
  refine (inCommand_passes (descend_ends fun inner hinner =>
    (hbelow inner hinner).pipeline)).bind fun _ w hw => ?_
  exact (close_ends _ _ w).mono fun _ _ hx => hu.reads (hv.trans hw) hx

theorem searchValue_ends (h : s.next? = some k) : Ends searchValue s fun _ t => Reads 2 s t :=
  node_bump_ends h (gluedWhile_ends Kind.isGlue)

theorem searchValues_ends (s : State) : Ends searchValues s fun _ t => Passes 8 s t := by
  refine whileTrue_passes (m := 4) (k := 4) (by decide) fun t => ?_
  refine (Stays.refl t).asks_isIn fun u hu => ?_
  split
  · next hvalue =>
    obtain ⟨k, hk, -⟩ := next?_of_any hvalue
    refine (searchValue_ends (hu.next?.trans hk)).bind fun _ v hv => ?_
    refine (eat_ends .comma v).mono fun more w hw => ?_
    obtain ⟨rfl, -, hw⟩ | ⟨rfl, -, hw⟩ := hw
    · exact .inl ⟨rfl, hu.passes.reads (hv.trans hw.passes)⟩
    · exact .inr ⟨rfl, (hu.passes.reads (hv.trans hw.passes)).passes, trivial⟩
  · exact hu.answersNo (by decide) trivial

theorem searchValueTerm_ends (h : s.next? = some k) :
    Ends searchValueTerm s fun _ t => Reads 12 s t := by
  refine (mark_ends s).bind fun start t ht => ?_
  refine ht.passes.andReads (n := 12) (by decide) ?_
  refine (searchValue_ends (ht.next?.trans h)).bind fun _ u hu => ?_
  refine (Stays.refl u).asks_current fun v hv => ?_
  split
  · next hcomparison =>
    obtain ⟨c, hc, -⟩ := next?_of_any hcomparison
    refine (hu.trans hv.passes).reading (n := 3) (by decide) ?_
    refine wrapFrom_bump_ends (hv.next?.trans hc) fun w => ?_
    refine (Stays.refl w).asks_isIn fun x hx => ?_
    split
    · next hvalue =>
      obtain ⟨l, hl, -⟩ := next?_of_any hvalue
      exact hx.passes.reading (by decide) (searchValue_ends (hx.next?.trans hl))
    · exact hx.passes.notes (by decide) (reportWith_ends _ _ x)
  · refine hv.asks_isAhead fun w hw => ?_
    split
    · next hin =>
      obtain ⟨-, hparen⟩ := Bool.and_eq_true_iff.mp hin
      have hsecond : w.second? = some .lparen := hw.second?.trans (eq_of_beq hparen)
      refine (hu.trans hw.passes).reading (n := 9) (by decide) (wrapFrom_reads ?_)
      refine (bump_ends_of_second? (s := cut start w) hsecond).bind fun _ x ⟨hx, l, hl⟩ => ?_
      refine (pushOpener_ends .lparen x).bind fun _ y hy => ?_
      refine (bump_ends_of_next? (hy.next?.trans hl)).bind fun _ z hz => ?_
      refine (searchValues_ends z).bind fun _ a ha => ?_
      exact (close_ends _ _ a).mono fun _ _ hb => hx.trans (hy.reads (hz.trans ha) hb).passes
    · refine Ends.mono (wrapFrom_passes (n := 0) (.pure (Passes.refl _))) fun _ _ hx => ?_
      exact (hu.trans (hw.passes.trans hx)).le (by decide)

/-! ## Terms -/

/-- Whether no further term can start. -/
def searchEnds (stop : Kind → Bool) (s : State) : Bool :=
  s.atEnd || (s.next? == some .rparen || s.next?.any stop)

theorem searchEnds_of_stays {n : Nat} (h : Stays n s t) :
    searchEnds stop t = searchEnds stop s := by
  rw [searchEnds, searchEnds, h.atEnd, h.next?]

theorem atSearchEnd_ends (stop : Kind → Bool) (s : State) :
    Ends (atSearchEnd stop) s fun b t => Stays 3 s t ∧ b = searchEnds stop s := by
  refine (Stays.refl s).asks_atStageEnd fun t ht => ?_
  split
  · next h => exact .pure ⟨ht.le (by decide), by rw [searchEnds, h, Bool.true_or]⟩
  · next h =>
    refine ht.asks_isAt fun u hu => ?_
    split
    · next h' => exact .pure ⟨hu.le (by decide), by rw [searchEnds, h', Bool.true_or, Bool.or_true]⟩
    · next h' =>
      refine (isIn_ends stop u).mono fun b v ⟨hv, hb⟩ => ⟨hu.trans hv, ?_⟩
      rw [hb, hu.next?, searchEnds, Bool.eq_false_iff.mpr h, Bool.eq_false_iff.mpr h',
        Bool.false_or, Bool.false_or]

/-- Where a term can start there is a lexeme to read. -/
theorem next?_of_not_atEnd (h : s.atEnd = false) : ∃ k, s.next? = some k := by
  rcases hk : s.next? with _ | k
  · rw [State.atEnd, hk] at h
    cases h
  · exact ⟨k, rfl⟩

theorem searchGroup_ends (hbelow : Fits below) (h : s.next? = some k) :
    Ends (searchGroup below) s fun _ t => Reads 3 s t := by
  refine node_reads ((pushOpener_ends .lparen _).bind fun _ t ht => ?_)
  have hnext : t.next? = some k := ht.next?.trans ((next?_opened s).trans h)
  refine (bump_ends_of_next? hnext).bind fun _ u hu => ?_
  refine (descend_ends fun inner hinner => (hbelow inner hinner).searchTerms).bind fun _ v hv => ?_
  exact (close_ends _ _ v).mono fun _ _ hw => ht.reads (hu.trans hv) hw

/-- A part of a search that reads a lexeme wherever a term can start. -/
def ReadsTerm (n : Nat) (stop : Kind → Bool) (s t : State) : Prop :=
  Passes n s t ∧ (searchEnds stop s = false → Reads n s t)

theorem searchPrimary_ends (hbelow : Fits below) (stop : Kind → Bool) (s : State) :
    Ends (searchPrimary below stop) s fun _ t => ReadsTerm 16 stop s t := by
  refine (atSearchEnd_ends stop s).bind fun b t ⟨ht, hb⟩ => ?_
  subst hb
  split
  · next h =>
    refine (report_ends _ t).mono fun _ u hu => ?_
    exact ⟨(ht.trans hu).passes.le (by decide), fun h' => nomatch h.symm.trans h'⟩
  · next h =>
    refine Ends.mono (P := fun _ u => Reads 16 s u) ?_ fun _ u hu => ⟨hu.passes, fun _ => hu⟩
    refine ht.asks_current fun u hu => ?_
    have hnext : u.next? = s.next? := hu.next?
    split
    · next hk => exact hu.passes.andReads (by decide) (searchGroup_ends hbelow (hnext.trans hk))
    · next hk => exact hu.passes.andReads (by decide) (subsearch_ends hbelow (hnext.trans hk))
    · next hk => exact hu.passes.andReads (by decide) (single_ends (hnext.trans hk))
    · next hk =>
      refine hu.asks_text fun text v hv => ?_
      exact hv.passes.andReads (by decide) (refuseWith_ends (hv.next?.trans hk))
    · next hk =>
      refine hu.asks_text fun text v hv => ?_
      exact hv.passes.andReads (by decide) (refuseWith_ends (hv.next?.trans hk))
    · split
      · next hvalue =>
        obtain ⟨k, hk, -⟩ := next?_of_any hvalue
        exact hu.passes.andReads (by decide) (searchValueTerm_ends (hnext.trans hk))
      · have hend : s.atEnd = false := (Bool.or_eq_false_iff.mp (Bool.eq_false_iff.mpr h)).1
        obtain ⟨k, hk⟩ := next?_of_not_atEnd hend
        refine hu.asks_text fun text v hv => ?_
        exact hv.passes.andReads (by decide) (refuseWith_ends (hv.next?.trans hk))

theorem searchNot_ends (hbelow : Fits below) (stop : Kind → Bool) (s : State) :
    Ends (searchNot below stop) s fun _ t => ReadsTerm 17 stop s t := by
  refine (Stays.refl s).asks_isAt fun t ht => ?_
  split
  · next h =>
    refine Ends.mono (P := fun _ u => Reads 17 s u) ?_ fun _ u hu => ⟨hu.passes, fun _ => hu⟩
    have hnot : t.next? = some (.clause .not) := ht.next?.trans (eq_of_beq h)
    refine ht.passes.andReads (n := 2) (by decide) (node_bump_ends hnot fun u => ?_)
    exact descend_ends fun inner hinner => (hbelow inner hinner).searchNot stop
  · refine (searchPrimary_ends hbelow stop t).mono fun _ u hu => ⟨ht.passes.trans hu.1, fun h => ?_⟩
    exact ht.passes.reads (hu.2 ((searchEnds_of_stays ht).trans h))

theorem searchOr_ends (hbelow : Fits below) (stop : Kind → Bool) (s : State) :
    Ends (searchOr below stop) s fun _ t => ReadsTerm 37 stop s t := by
  refine (mark_ends s).bind fun start t ht => ?_
  refine (searchNot_ends hbelow stop t).bind fun _ u hu => ?_
  have hmore : Ends (do
      if ← isAt (.clause .or) then
        wrapFrom start .searchOr <| whileTrue do
          if ← eat (.clause .or) then
            searchNot below stop
            return true
          return false) u fun _ v => Passes 20 u v := by
    refine (Stays.refl u).asks_isAt fun v hv => ?_
    split
    · refine hv.passes.andThen (n := 19) (by decide) (wrapFrom_passes ?_)
      refine whileTrue_passes (m := 18) (k := 1) (by decide) fun w => ?_
      refine (eat_ends (.clause .or) w).bind fun found x hx => ?_
      obtain ⟨rfl, -, hx⟩ | ⟨rfl, -, hx⟩ := hx
      · refine (searchNot_ends hbelow stop x).bind fun _ y hy => .pure ?_
        exact .inl ⟨rfl, hx.trans hy.1⟩
      · exact hx.answersNo (by decide) trivial
    · exact .pure (hv.passes.le (by decide))
  refine hmore.mono fun _ v hv => ⟨ht.passes.trans (hu.1.trans hv), fun h => ?_⟩
  exact ht.passes.reads ((hu.2 ((searchEnds_of_stays ht).trans h)).trans hv)

theorem searchTerms_ends (hbelow : Fits below) (stop : Kind → Bool) (s : State) :
    Ends (searchTerms below stop) s fun _ t => Passes 44 s t := by
  refine whileTrue_passes (m := 41) (k := 3) (by decide) fun t => ?_
  refine (atSearchEnd_ends stop t).bind fun b u ⟨hu, hb⟩ => ?_
  subst hb
  split
  · exact hu.answersNo (by decide) trivial
  · next h =>
    refine (eat_ends (.clause .and) u).bind fun found v hv => ?_
    obtain ⟨rfl, -, hv⟩ | ⟨rfl, -, hv⟩ := hv
    · exact .pure (.inl ⟨rfl, (hu.passes.reads hv).le (by decide)⟩)
    · have hends : searchEnds stop v = false :=
        (searchEnds_of_stays (hu.trans hv)).trans (Bool.eq_false_iff.mpr h)
      refine (searchOr_ends hbelow stop v).bind fun _ w hw => .pure ?_
      exact .inl ⟨rfl, (hu.trans hv).passes.reads (hw.2 hends)⟩

theorem searchExpr_ends (hbelow : Fits below) (stop : Kind → Bool) (s : State) :
    Ends (searchExpr below stop) s fun _ t => Passes 44 s t :=
  node_passes (searchTerms_ends hbelow stop _)

theorem whereClause_ends (hbelow : Fits below) (stop : Kind → Bool) (h : s.next? = some k) :
    Ends (whereClause below stop) s fun _ t => Reads 44 s t :=
  node_bump_ends h (searchExpr_ends hbelow stop)

end SplQuery.Grammar
