import SplQuery.Grammar.Command.Aggregate
import SplQuery.Grammar.Command.Create
import SplQuery.Grammar.Command.Extract
import SplQuery.Grammar.Command.Filter
import SplQuery.Grammar.Command.Free
import SplQuery.Grammar.Command.Nested
import SplQuery.Proofs.Steps.Expression
import SplQuery.Proofs.Steps.Search

/-!
# What commands may do

The arguments of every command, sorted as their productions are. A repetition ends because every
round reads a lexeme, with two exceptions: `sort` ends when no field was found, and `head` takes a
condition only once. Every free argument reads a lexeme, whatever it starts with.
-/

namespace SplQuery.Grammar

open SplQuery.Parser State

variable {s t : State} {k : Kind} {below : Option Inner}

/-! ## Commands that aggregate -/

theorem aggregation_ends (hbelow : Fits below) (h : s.next? = some k) :
    Ends (aggregation below) s fun _ t => Reads 15 s t := by
  refine node_bump_ends h fun t => ?_
  have hrest {u : State} (hu : Passes 11 t u) : Ends (do
      if ← eat (.clause .as) then aliasName) u fun _ v => Passes 15 t v := by
    refine (eat_passes _ u).bind fun found v hv => ?_
    split
    · exact (hu.trans hv).andThen (by decide) (aliasName_ends v)
    · exact .pure ((hu.trans hv).le (by decide))
  refine (Stays.refl t).asks_isAt fun u hu => ?_
  split
  · refine (node_passes (parenArguments_ends hbelow _)).bind fun _ v hv => ?_
    exact hrest (hu.passes.trans hv)
  · exact hrest (hu.passes.le (by decide))

theorem statsBody_ends (hbelow : Fits below) (s : State) :
    Ends (statsBody below) s fun _ t => Passes 30 s t := by
  refine Ends.bind (loop_passes (m := 18) (k := 3) (by decide) fun count t => ?_)
    fun count t ht => ?_
  · refine (Stays.refl t).asks_atStageEnd fun u hu => ?_
    split
    · exact hu.stops (by decide) trivial
    · refine hu.asks_current fun v hv => ?_
      have hnext := hv.next?
      split
      · next hk => exact hv.goesOn (by decide) (bump_ends_of_next? (hnext.trans hk))
      · next hk => exact hv.goesOn (by decide) (byClause_ends (hnext.trans hk))
      · next hk => exact hv.goesOn (by decide) (byClause_ends (hnext.trans hk))
      · next hk => exact hv.goesOn (by decide) (overClause_ends (hnext.trans hk))
      · refine hv.asks_atOption fun w hw => ?_
        split
        · next h =>
          obtain ⟨k, hk⟩ := next?_of_atOption h
          exact hw.goesOn (by decide) (optionArg_ends (hw.next?.trans hk))
        · split
          · next h =>
            obtain ⟨k, hk, -⟩ := next?_of_any h
            exact hw.goesOn (by decide) (aggregation_ends hbelow (hw.next?.trans hk))
          · exact hw.stops (by decide) trivial
  · exact ht.notesIf (by decide) (report_ends _ t)

theorem fromSource_ends (h : s.next? = some k) : Ends fromSource s fun _ t => Reads 15 s t := by
  refine node_bump_ends h fun t => ?_
  refine (Stays.refl t).asks_atOption fun u hu => ?_
  split
  · next h =>
    obtain ⟨k, hk⟩ := next?_of_atOption h
    exact hu.passes.reading (by decide) (optionArg_ends (hu.next?.trans hk))
  · refine hu.asks_isIn fun v hv => ?_
    split
    · next h =>
      obtain ⟨k, hk, -⟩ := next?_of_any h
      exact hv.passes.reading (by decide) (argument_ends (hv.next?.trans hk))
    · exact hv.passes.notes (by decide) (reportWith_ends _ _ v)

theorem tstatsBody_ends (hbelow : Fits below) (s : State) :
    Ends (tstatsBody below) s fun _ t => Passes 60 s t := by
  refine Ends.bind (loop_passes (m := 47) (k := 3) (by decide) fun count t => ?_)
    fun count t ht => ?_
  · refine (Stays.refl t).asks_atStageEnd fun u hu => ?_
    split
    · exact hu.stops (by decide) trivial
    · refine hu.asks_current fun v hv => ?_
      have hnext := hv.next?
      split
      · next hk => exact hv.goesOn (by decide) (bump_ends_of_next? (hnext.trans hk))
      · next hk => exact hv.goesOn (by decide) (fromSource_ends (hnext.trans hk))
      · next hk =>
        exact hv.goesOn (by decide) (whereClause_ends hbelow endsWhere (hnext.trans hk))
      · next hk => exact hv.goesOn (by decide) (byClause_ends (hnext.trans hk))
      · next hk => exact hv.goesOn (by decide) (byClause_ends (hnext.trans hk))
      · refine hv.asks_atOption fun w hw => ?_
        split
        · next h =>
          obtain ⟨k, hk⟩ := next?_of_atOption h
          exact hw.goesOn (by decide) (optionArg_ends (hw.next?.trans hk))
        · split
          · next h =>
            obtain ⟨k, hk, -⟩ := next?_of_any h
            exact hw.goesOn (by decide) (aggregation_ends hbelow (hw.next?.trans hk))
          · exact hw.stops (by decide) trivial
  · exact ht.notesIf (by decide) (report_ends _ t)

theorem topBody_ends (s : State) : Ends topBody s fun _ t => Passes 30 s t := by
  refine (leadingNumber_ends s).bind fun _ t ht => ?_
  refine Ends.bind (loop_passes (m := 17) (k := 3) (by decide) fun count u => ?_)
    fun count u hu => ?_
  · refine (Stays.refl u).asks_atStageEnd fun v hv => ?_
    split
    · exact hv.stops (by decide) trivial
    · next hend =>
      refine hv.asks_current fun w hw => ?_
      have hnext := hw.next?
      split
      · next hk => exact hw.goesOn (by decide) (bump_ends_of_next? (hnext.trans hk))
      · next hk => exact hw.goesOn (by decide) (byClause_ends (hnext.trans hk))
      · next hk => exact hw.goesOn (by decide) (byClause_ends (hnext.trans hk))
      · refine hw.asks_atOption fun x hx => ?_
        split
        · next h =>
          obtain ⟨k, hk⟩ := next?_of_atOption h
          exact hx.goesOn (by decide) (optionArg_ends (hx.next?.trans hk))
        · next hoption =>
          split
          · next hfield => exact hx.goesOn (by decide) (fieldList_reads hx hend hoption hfield)
          · exact hx.stops (by decide) trivial
  · exact (ht.trans hu).notesIf (by decide) (report_ends _ u)

/-! ### Models -/

theorem featuresClause_ends (h : s.next? = some k) :
    Ends featuresClause s fun _ t => Reads 10 s t := by
  refine node_bump_ends h fun t => ?_
  refine (fieldList_ends Kind.endsFieldList t).bind fun count u hu => ?_
  exact hu.1.notesIf (by decide) (reportWith_ends _ _ u)

theorem intoClause_ends (h : s.next? = some k) : Ends intoClause s fun _ t => Reads 12 s t := by
  refine node_bump_ends h fun t => ?_
  refine (Stays.refl t).asks_isIn fun u hu => ?_
  split
  · next h =>
    obtain ⟨k, hk, -⟩ := next?_of_any h
    exact hu.passes.reading (by decide) (argument_ends (hu.next?.trans hk))
  · exact hu.passes.notes (by decide) (reportWith_ends _ _ u)

theorem fitArguments_ends (s : State) : Ends fitArguments s fun _ t => Passes 20 s t := by
  refine whileTrue_passes (m := 17) (k := 3) (by decide) fun t => ?_
  refine (Stays.refl t).asks_atStageEnd fun u hu => ?_
  split
  · exact hu.answersNo (by decide) trivial
  · next hend =>
    refine hu.asks_current fun v hv => ?_
    have hnext := hv.next?
    split
    · next hk => exact hv.answersYes (by decide) (bump_ends_of_next? (hnext.trans hk))
    · next hk => exact hv.answersYes (by decide) (featuresClause_ends (hnext.trans hk))
    · next hk => exact hv.answersYes (by decide) (intoClause_ends (hnext.trans hk))
    · next hk =>
      refine (bump_ends_of_next? (hnext.trans hk)).bind fun _ w hw => ?_
      refine (aliasName_ends w).bind fun _ x hx => .pure ?_
      exact .inl ⟨rfl, (hv.passes.reads (hw.trans hx)).le (by decide)⟩
    · refine hv.asks_atOption fun w hw => ?_
      split
      · next h =>
        obtain ⟨k, hk⟩ := next?_of_atOption h
        exact hw.answersYes (by decide) (optionArg_ends (hw.next?.trans hk))
      · next hoption =>
        split
        · next hfield => exact hw.answersYes (by decide) (fieldList_reads hw hend hoption hfield)
        · exact hw.answersNo (by decide) trivial

theorem fitBody_ends (s : State) : Ends fitBody s fun _ t => Passes 40 s t := by
  refine (andAlso_ends (isIn_ends Kind.isWord) (notM_ends atOption_ends)
    (fun h => by rw [h.atOption]) s).bind fun b t ⟨ht, hb⟩ => ?_
  split
  · next h =>
    obtain ⟨k, hk, -⟩ := next?_of_any (Bool.and_eq_true_iff.mp (hb.symm.trans h)).1
    refine (argument_ends (ht.next?.trans hk)).bind fun _ u hu => ?_
    exact (ht.passes.trans hu.passes).andThen (by decide) (fitArguments_ends u)
  · exact ht.passes.notes (by decide) (reportWith_ends _ _ t)

/-! ## Commands that compute fields -/

theorem assignment_ends (hbelow : Fits below) (h : s.next? = some k) :
    Ends (assignment below) s fun _ t => Reads 5 s t := by
  refine node_reads ((fieldItem_ends ((next?_opened s).trans h)).bind fun _ t ht => ?_)
  refine (expect_ends .equals "=" t).bind fun found u hu => ?_
  split
  · exact (ht.trans hu).andThen (by decide) (expression_ends hbelow u)
  · exact .pure ((ht.trans hu).le (by decide))

theorem evalBody_ends (hbelow : Fits below) (s : State) :
    Ends (evalBody below) s fun _ t => Passes 20 s t := by
  refine Ends.bind (loop_passes (m := 8) (k := 8) (by decide) fun count t => ?_)
    fun count t ht => .pure (ht.le (by decide))
  refine (Stays.refl t).asks_isIn fun u hu => ?_
  split
  · next h =>
    obtain ⟨k, hk, -⟩ := next?_of_any h
    refine (assignment_ends hbelow (hu.next?.trans hk)).bind fun _ v hv => ?_
    have htv : Reads 6 t v := hu.passes.reads hv
    refine (eat_ends .comma v).bind fun found w hw => ?_
    obtain ⟨rfl, -, hw⟩ | ⟨rfl, -, hw⟩ := hw
    · exact .pure ⟨(htv.trans hw.passes).le (by decide), trivial⟩
    · refine hw.asks_atOption fun x hx => .pure ?_
      split
      · exact ⟨htv.trans hx.passes, trivial⟩
      · exact ⟨(htv.trans hx.passes).passes, trivial⟩
  · split
    · refine (reportWith_ends _ _ u).bind fun _ v hv => ?_
      exact (hu.trans hv).stops (by decide) trivial
    · exact hu.stops (by decide) trivial

theorem convertBody_ends (s : State) : Ends convertBody s fun _ t => Passes 30 s t := by
  refine Ends.bind (loop_passes (m := 17) (k := 4) (by decide) fun count t => ?_)
    fun count t ht => ?_
  · refine (Stays.refl t).asks_atStageEnd fun u hu => ?_
    split
    · exact hu.stops (by decide) trivial
    · refine (eat_ends .comma u).bind fun found v hv => ?_
      obtain ⟨rfl, -, hv⟩ | ⟨rfl, -, hv⟩ := hv
      · exact .pure ⟨(hu.passes.reads hv).le (by decide), trivial⟩
      · refine (hu.trans hv).asks_atOption fun w hw => ?_
        split
        · next h =>
          obtain ⟨k, hk⟩ := next?_of_atOption h
          exact hw.goesOn (by decide) (optionArg_ends (hw.next?.trans hk))
        · refine (atFieldCall_ends w).bind fun b x ⟨hx, hb⟩ => ?_
          split
          · next h =>
            obtain ⟨k, hk⟩ := hb h
            exact (hw.trans hx).goesOn (by decide) (fieldCall_ends (hx.next?.trans hk))
          · exact (hw.trans hx).stops (by decide) trivial
  · exact ht.notesIf (by decide) (reportWith_ends _ _ t)

theorem replacement_ends (h : s.next? = some k) :
    Ends replacement s fun _ t => Reads 24 s t := by
  refine node_reads ((argument_ends ((next?_opened s).trans h)).bind fun _ t ht => ?_)
  refine (expect_ends (.clause .withWord) "with" t).bind fun found u hu => ?_
  split
  · refine (Stays.refl u).asks_isIn fun v hv => ?_
    split
    · next hvalue =>
      obtain ⟨k, hk, -⟩ := next?_of_any hvalue
      exact (ht.trans (hu.trans hv.passes)).reading (by decide) (argument_ends (hv.next?.trans hk))
    · exact (ht.trans (hu.trans hv.passes)).notes (by decide) (reportWith_ends _ _ v)
  · exact .pure ((ht.trans hu).le (by decide))

theorem replaceBody_ends (s : State) : Ends replaceBody s fun _ t => Passes 60 s t := by
  refine Ends.bind (loop_passes (m := 28) (k := 4) (by decide) fun count t => ?_)
    fun count t ht => ?_
  · refine (orElse_ends atStageEnd_ends (isAt_ends (.clause .inWord)) (fun h => by rw [h.next?])
      t).bind fun b u ⟨hu, _⟩ => ?_
    split
    · exact hu.stops (by decide) trivial
    · refine (eat_ends .comma u).bind fun found v hv => ?_
      obtain ⟨rfl, -, hv⟩ | ⟨rfl, -, hv⟩ := hv
      · exact .pure ⟨(hu.passes.reads hv).le (by decide), trivial⟩
      · refine (hu.trans hv).asks_isIn fun w hw => ?_
        split
        · next h =>
          obtain ⟨k, hk, -⟩ := next?_of_any h
          exact hw.goesOn (by decide) (replacement_ends (hw.next?.trans hk))
        · exact hw.stops (by decide) trivial
  · have hfields {u : State} (hu : Passes 32 s u) : Ends (do
        if ← eat (.clause .inWord) then
          if (← fieldList nowhere) == 0 then reportWith .expectedField "after \x60in\x60") u
        fun _ v => Passes 60 s v := by
      refine (eat_passes _ u).bind fun found v hv => ?_
      split
      · refine (fieldList_ends nowhere v).bind fun count w hw => ?_
        have hsw := hu.trans (hv.trans hw.1)
        exact hsw.notesIf (by decide) (reportWith_ends _ _ w)
      · exact .pure ((hu.trans hv).le (by decide))
    split
    · refine (reportWith_ends _ _ t).bind fun _ u hu => ?_
      exact hfields (ht.trans hu.passes)
    · exact hfields ht

theorem strcatBody_ends (s : State) : Ends strcatBody s fun _ t => Passes 30 s t := by
  refine Ends.bind (loop_passes (m := 18) (k := 4) (by decide) fun count t => ?_)
    fun count t ht => ?_
  · refine (Stays.refl t).asks_atStageEnd fun u hu => ?_
    split
    · exact hu.stops (by decide) trivial
    · refine (eat_ends .comma u).bind fun found v hv => ?_
      obtain ⟨rfl, -, hv⟩ | ⟨rfl, -, hv⟩ := hv
      · exact .pure ⟨(hu.passes.reads hv).le (by decide), trivial⟩
      · refine (hu.trans hv).asks_current fun w hw => hw.asks_atOption fun x hx => ?_
        split
        · next h =>
          obtain ⟨k, hk⟩ := next?_of_atOption h
          exact hx.goesOn (by decide) (optionArg_ends (hx.next?.trans hk))
        · refine hx.asks_text fun text y hy => ?_
          split
          · next h =>
            have hnext := eq_of_beq (Bool.and_eq_true_iff.mp h).1
            exact hy.goesOn (by decide) (single_ends (hy.next?.trans hnext))
          · split
            · next h =>
              obtain ⟨k, hk, -⟩ := next?_of_any h
              exact hy.goesOn (by decide) (fieldItem_ends (hy.next?.trans hk))
            · exact hy.stops (by decide) trivial
  · exact ht.notesIf (by decide) (reportWith_ends _ _ t)

theorem trendlineBody_ends (s : State) : Ends trendlineBody s fun _ t => Passes 30 s t := by
  refine Ends.bind (loop_passes (m := 12) (k := 3) (by decide) fun count t => ?_)
    fun count t ht => ?_
  · refine (Stays.refl t).asks_atStageEnd fun u hu => ?_
    split
    · exact hu.stops (by decide) trivial
    · refine (eat_ends .comma u).bind fun found v hv => ?_
      obtain ⟨rfl, -, hv⟩ | ⟨rfl, -, hv⟩ := hv
      · exact .pure ⟨(hu.passes.reads hv).le (by decide), trivial⟩
      · refine (atFieldCall_ends v).bind fun b w ⟨hw, hb⟩ => ?_
        have htw := (hu.trans hv).trans hw
        split
        · next h =>
          obtain ⟨k, hk⟩ := hb h
          exact htw.goesOn (by decide) (fieldCall_ends (hw.next?.trans hk))
        · exact htw.stops (by decide) trivial
  · exact ht.notesIf (by decide) (reportWith_ends _ _ t)

/-! ## Commands that extract and look up -/

theorem rexBody_ends (s : State) : Ends rexBody s fun _ t => Passes 20 s t := by
  refine Ends.bind (loop_passes (m := 16) (k := 3) (by decide) fun hasPattern t => ?_)
    fun hasPattern t ht => ?_
  · refine (Stays.refl t).asks_atStageEnd fun u hu => ?_
    split
    · exact hu.stops (by decide) trivial
    · refine hu.asks_atOption fun v hv => ?_
      split
      · next h =>
        obtain ⟨k, hk⟩ := next?_of_atOption h
        exact hv.goesOn (by decide) (optionArg_ends (hv.next?.trans hk))
      · refine (andAlso_ends (x := fun _ => !hasPattern) (fun w => .pure ⟨Stays.refl w, rfl⟩)
          (isAt_ends .stringLiteral) (fun h => by rw [h.next?]) v).bind fun b w ⟨hw, hb⟩ => ?_
        split
        · next h =>
          have hnext := eq_of_beq (Bool.and_eq_true_iff.mp (hb.symm.trans h)).2
          exact (hv.trans hw).goesOn (by decide) (bump_ends_of_next? (hw.next?.trans hnext))
        · exact (hv.trans hw).stops (by decide) trivial
  · split
    · exact .pure (ht.le (by decide))
    · exact ht.notes (by decide) (reportWith_ends _ _ t)

theorem regexPattern_ends (s : State) : Ends regexPattern s fun _ t => Passes 12 s t := by
  refine (Stays.refl s).asks_current fun t ht => ?_
  split
  · next hk =>
    exact ht.passes.reading (by decide) (bump_ends_of_next? (ht.next?.trans hk))
  · split
    · next h =>
      obtain ⟨k, hk, -⟩ := next?_of_any h
      exact ht.passes.reading (by decide) (argument_ends (ht.next?.trans hk))
    · exact ht.passes.notes (by decide) (reportWith_ends _ _ t)

theorem regexBody_ends (s : State) : Ends regexBody s fun _ t => Passes 20 s t := by
  refine (Stays.refl s).asks_isIn fun t ht => ?_
  split
  · refine ht.asks_ahead fun u hu => ?_
    split
    · next h =>
      obtain ⟨k, hk, -⟩ := (Option.any_eq_true _ _).mp h
      refine (bump_ends_of_second? (hu.second?.trans hk)).bind fun _ v ⟨hv, l, hl⟩ => ?_
      refine (bump_ends_of_next? hl).bind fun _ w hw => ?_
      have hsw : Passes 1 s w := (hu.passes.reads (hv.trans hw.passes)).passes
      exact hsw.andThen (by decide) (regexPattern_ends w)
    · exact hu.passes.andThen (by decide) (regexPattern_ends u)
  · exact ht.passes.andThen (by decide) (regexPattern_ends t)

/-! ### Lookups -/

theorem outputClause_ends (h : s.next? = some k) :
    Ends outputClause s fun _ t => Reads 14 s t := by
  refine node_bump_ends h fun t => ?_
  refine (aliasedFieldList_ends nowhere t).bind fun count u hu => ?_
  exact hu.notesIf (by decide) (reportWith_ends _ _ u)

theorem lookupBody_ends (s : State) : Ends lookupBody s fun _ t => Passes 90 s t := by
  refine (options_ends s).bind fun _ t ht => ?_
  refine (Stays.refl t).asks_isIn fun u hu => ?_
  split
  · next h =>
    obtain ⟨k, hk, -⟩ := next?_of_any h
    refine (argument_ends (hu.next?.trans hk)).bind fun _ v hv => ?_
    have hrest {w : State} (hw : Passes 42 s w) : Ends (do
        options
        if ← isIn startsOutput then outputClause) w fun _ x => Passes 90 s x := by
      refine (options_ends w).bind fun _ x hx => ?_
      refine (Stays.refl x).asks_isIn fun y hy => ?_
      have hsy := hw.trans (hx.trans hy.passes)
      split
      · next h =>
        obtain ⟨k, hk, -⟩ := next?_of_any h
        exact hsy.reading (by decide) (outputClause_ends (hy.next?.trans hk))
      · exact .pure (hsy.le (by decide))
    refine (aliasedFieldList_ends startsOutput v).bind fun count w hw => ?_
    have hsw : Passes 42 s w := ht.trans (hu.passes.trans (hv.passes.trans hw))
    split
    · exact (reportWith_ends _ _ w).bind fun _ x hx => hrest (hsw.trans hx.passes)
    · exact hrest hsw
  · exact (ht.trans hu.passes).notes (by decide) (reportWith_ends _ _ u)

theorem inputlookupBody_ends (hbelow : Fits below) (s : State) :
    Ends (inputlookupBody below) s fun _ t => Passes 90 s t := by
  have hrest {t : State} (ht : Passes 29 s t) : Ends (do
      options
      if ← isAt (.command .whereWord) then whereClause below nowhere) t
      fun _ u => Passes 90 s u := by
    refine (options_ends t).bind fun _ u hu => ?_
    refine (Stays.refl u).asks_isAt fun v hv => ?_
    have hsv := ht.trans (hu.trans hv.passes)
    split
    · next h =>
      exact hsv.reading (by decide) (whereClause_ends hbelow nowhere (hv.next?.trans (eq_of_beq h)))
    · exact .pure (hsv.le (by decide))
  refine (options_ends s).bind fun _ t ht => ?_
  refine (andAlso_ends (isIn_ends Kind.isGlue) (notM_ends (isAt_ends (.command .whereWord)))
    (fun h => by rw [h.next?]) t).bind fun b u ⟨hu, hb⟩ => ?_
  split
  · next h =>
    obtain ⟨k, hk, -⟩ := next?_of_any (Bool.and_eq_true_iff.mp (hb.symm.trans h)).1
    refine (argument_ends (hu.next?.trans hk)).bind fun _ v hv => ?_
    exact hrest (ht.trans (hu.passes.trans hv.passes))
  · refine (reportWith_ends _ _ u).bind fun _ v hv => ?_
    exact hrest ((ht.trans (hu.trans hv).passes).le (by decide))

/-! ## Commands that select -/

theorem whereBody_ends (hbelow : Fits below) (s : State) :
    Ends (whereBody below) s fun _ t => Passes 3 s t := by
  refine (Stays.refl s).asks_atStageEnd fun t ht => ?_
  split
  · exact ht.passes.notes (by decide) (report_ends _ t)
  · exact ht.passes.andThen (by decide) (expression_ends hbelow t)

theorem tableBody_ends (s : State) : Ends tableBody s fun _ t => Passes 10 s t := by
  refine (fieldList_ends nowhere s).bind fun count t ht => ?_
  exact ht.1.notesIf (by decide) (report_ends _ t)

/-! ### Sorting -/

/-- A sign is read if there is one. -/
theorem direction_ends (s : State) :
    Ends direction s fun _ t => Reads 2 s t ∨
      (Stays 2 s t ∧ s.next? ≠ some .plus ∧ s.next? ≠ some .minus) := by
  refine (orElse_ends (isAt_ends .plus) (isAt_ends .minus) (fun h => by rw [h.next?]) s).bind
    fun b t ⟨ht, hb⟩ => ?_
  subst hb
  split
  · next h =>
    obtain ⟨k, hk⟩ : ∃ k, s.next? = some k := by
      rcases Bool.or_eq_true_iff.mp h with h | h <;> exact ⟨_, eq_of_beq h⟩
    exact (bump_ends_of_next? (ht.next?.trans hk)).mono fun _ _ hu => .inl (ht.passes.reads hu)
  · next h =>
    obtain ⟨hplus, hminus⟩ := Bool.or_eq_false_iff.mp (Bool.eq_false_iff.mpr h)
    exact .pure (.inr ⟨ht, by simpa using hplus, by simpa using hminus⟩)

theorem direction_passes (s : State) : Ends direction s fun _ t => Passes 2 s t :=
  (direction_ends s).mono fun _ _ h => h.elim (·.passes) (·.1.passes)

theorem fieldsBody_ends (s : State) : Ends fieldsBody s fun _ t => Passes 12 s t :=
  (direction_passes s).bind fun _ t ht => ht.andThen (by decide) (tableBody_ends t)

theorem sortField_ends (h : s.next?.any startsSortField = true) :
    Ends sortField s fun _ t => Reads 12 s t := by
  refine node_reads ((direction_ends _).bind fun _ t ht => ?_)
  refine (atFieldCall_ends t).bind fun b u ⟨hu, hb⟩ => ?_
  rcases ht with ht | ⟨ht, hplus, hminus⟩
  · refine (ht.trans hu.passes).andThen (n := 9) (by decide) ?_
    split
    · next hyes =>
      obtain ⟨k, hk⟩ := hb hyes
      exact (fieldCall_ends (hu.next?.trans hk)).mono fun _ _ hv => hv.passes
    · exact (fieldOr_ends _ u).mono fun _ _ hv => hv.1.le (by decide)
  · have htu := ht.trans hu
    refine htu.passes.andReads (n := 9) (by decide) ?_
    split
    · next hyes =>
      obtain ⟨k, hk⟩ := hb hyes
      exact fieldCall_ends (hu.next?.trans hk)
    · refine (fieldOr_ends _ u).mono fun _ _ hv => (hv.2 ?_).le (by decide)
      obtain ⟨k, hk, hstarts⟩ := next?_of_any h
      rw [next?_opened] at hplus hminus
      rw [htu.next?, next?_opened, hk]
      rw [startsSortField, Bool.or_eq_true, Bool.or_eq_true] at hstarts
      rcases hstarts with (hk' | hk') | hfield
      · exact absurd (hk.trans (congrArg some (eq_of_beq hk'))) hplus
      · exact absurd (hk.trans (congrArg some (eq_of_beq hk'))) hminus
      · exact hfield

/-- Where no field to sort by starts, none is counted. -/
theorem sortFields_ends (s : State) :
    Ends sortFields s fun count t => Reads 20 s t ∨
      (Passes 4 s t ∧ count = 0 ∧
        (s.atEnd = true ∨ s.atOption = true ∨ s.next?.any startsSortField = false)) := by
  refine Ends.mono (loop_round (m := 16) (k := 4) (I := fun _ _ => True)
    (R := fun a t b _ => b = a ∧
      (t.atEnd = true ∨ t.atOption = true ∨ t.next?.any startsSortField = false))
    (by decide) trivial fun count t _ => ?_) ?_
  · refine (eat_ends .comma t).bind fun found u hu => ?_
    obtain ⟨rfl, -, hu⟩ | ⟨rfl, -, hu⟩ := hu
    · exact .pure ⟨hu.le (by decide), trivial⟩
    · refine (orElse_ends atStageEnd_ends (orElse_ends atOption_ends (notM_ends
        (isIn_ends startsSortField)) fun h => by rw [h.next?])
        (fun h => by rw [h.atOption, h.next?]) u).bind fun b v ⟨hv, hb⟩ => ?_
      have htv := hu.trans hv
      subst hb
      rw [hu.atEnd, hu.atOption, hu.next?]
      split
      · next h =>
        refine htv.stops (by decide) ⟨rfl, ?_⟩
        rw [Bool.or_eq_true, Bool.or_eq_true] at h
        exact h.imp_right (·.imp_right fun h => by simpa using h)
      · next h =>
        obtain ⟨-, hstarts⟩ := Bool.or_eq_false_iff.mp
          (Bool.or_eq_false_iff.mp (Bool.eq_false_iff.mpr h)).2
        refine htv.goesOn (by decide) (sortField_ends ?_)
        rw [htv.next?]
        simpa using hstarts
  · rintro count t (⟨ht, hcount, hwhy⟩ | ⟨ht, -⟩)
    · exact .inr ⟨ht, hcount, hwhy⟩
    · exact .inl ht

theorem sortFields_passes (s : State) : Ends sortFields s fun _ t => Passes 20 s t :=
  (sortFields_ends s).mono fun _ _ h => h.elim (·.passes) (·.1.le (by decide))

theorem dedupBody_ends (s : State) : Ends dedupBody s fun _ t => Passes 30 s t := by
  refine (leadingNumber_ends s).bind fun _ t ht => ?_
  refine Ends.bind (loop_passes (m := 23) (k := 3) (by decide) fun count u => ?_)
    fun count u hu => ?_
  · refine (Stays.refl u).asks_atStageEnd fun v hv => ?_
    split
    · exact hv.stops (by decide) trivial
    · next hend =>
      refine hv.asks_current fun w hw => ?_
      split
      · next h => exact hw.goesOn (by decide) (bump_ends_of_next? (hw.next?.trans (eq_of_beq h)))
      · refine hw.asks_atOption fun x hx => ?_
        split
        · next h =>
          obtain ⟨k, hk⟩ := next?_of_atOption h
          exact hx.goesOn (by decide) (optionArg_ends (hx.next?.trans hk))
        · next hoption =>
          split
          · next h =>
            refine (bump_ends_of_next? (hx.next?.trans (eq_of_beq h))).bind fun _ y hy => ?_
            refine (sortFields_passes y).bind fun _ z hz => .pure ?_
            exact ⟨hx.passes.reads (hy.trans hz), trivial⟩
          · split
            · next hfield => exact hx.goesOn (by decide) (fieldList_reads hx hend hoption hfield)
            · exact hx.stops (by decide) trivial
  · exact (ht.trans hu).notesIf (by decide) (report_ends _ u)

theorem sortBody_ends (s : State) : Ends sortBody s fun _ t => Passes 60 s t := by
  refine (leadingNumber_ends s).bind fun _ t ht => ?_
  refine Ends.bind (loop_passes (m := 24) (k := 24) (by decide) fun count u => ?_)
    fun count u hu => ?_
  · refine (Stays.refl u).asks_atStageEnd fun v hv => ?_
    split
    · exact hv.stops (by decide) trivial
    · next hend =>
      refine (eat_ends .comma v).bind fun found w hw => ?_
      obtain ⟨rfl, -, hw⟩ | ⟨rfl, -, hw⟩ := hw
      · exact .pure ⟨(hv.passes.reads hw).le (by decide), trivial⟩
      · refine (hv.trans hw).asks_atOption fun x hx => ?_
        split
        · next h =>
          obtain ⟨k, hk⟩ := next?_of_atOption h
          exact hx.goesOn (by decide) (optionArg_ends (hx.next?.trans hk))
        · next hoption =>
          -- what is found is read, unless nothing has been found so far
          have hmore {n : Nat} {y : State} (hy : Stays n u y) (hn : n ≤ 4)
              (hfield : 0 < count → y.next?.any startsSortField = true) : Ends (do
                let count := count + (← sortFields)
                return if count == 0 then ForInStep.done count else .yield count) y
              (Round 24 24 (fun _ _ => True) (fun _ _ => True) u) := by
            refine (sortFields_ends y).bind fun found z hz => .pure ?_
            rcases hz with hz | ⟨hz, hfound, hwhy⟩
            · split
              · exact ⟨(hy.passes.reads hz).passes.le (by omega), trivial⟩
              · exact ⟨(hy.passes.reads hz).le (by omega), trivial⟩
            · have hzero : count = 0 := by
                rcases Nat.eq_zero_or_pos count with h | h
                · exact h
                · rw [hy.atEnd, hy.atOption, hfield h] at hwhy
                  simp [Bool.eq_false_iff.mpr hend, Bool.eq_false_iff.mpr hoption] at hwhy
              subst hzero hfound
              exact ⟨(hy.passes.trans hz).le (by omega), trivial⟩
          split
          · refine hx.asks_isIn fun y hy => ?_
            split
            · next h => exact hmore hy (by decide) fun _ => by rw [hy.next?]; exact h
            · exact hy.stops (by decide) trivial
          · next h => exact hmore hx (by decide) fun h' => absurd h' h
  · exact (ht.trans hu).notesIf (by decide) (report_ends _ u)

/-! ### Heads -/

/-- From `s` the arguments of `head` have been read up to `t`. -/
def HeadReads (s t : State) : Prop := t = s ∨ Reads 16 s t

theorem HeadReads.passes {n : Nat} {u : State} (h : HeadReads s t) (hu : Passes n t u) :
    Passes (16 + n) s u := by
  rcases h with rfl | h
  · exact hu.le (Nat.le_add_left _ _)
  · exact h.passes.trans hu

theorem HeadReads.reads {u : State} (h : HeadReads s t) (hu : Reads 16 t u) : HeadReads s u := by
  rcases h with rfl | h
  · exact .inr hu
  · exact .inr (h.again hu (by decide))

/-- How the arguments of `head` have been parsed from `s` to `t`: reading all the way, or by way of
the state in which a condition was parsed, which need not have read anything. -/
def HeadReached (s : State) (hasCondition : Bool) (t : State) : Prop :=
  (hasCondition = false ∧ HeadReads s t) ∨
    (hasCondition = true ∧ ∃ u, Passes 21 s u ∧ HeadReads u t)

theorem HeadReached.passes {n : Nat} {u : State} {b : Bool} (h : HeadReached s b t)
    (hu : Passes n t u) : Passes (37 + n) s u := by
  rcases h with ⟨-, h⟩ | ⟨-, v, hv, h⟩
  · exact (h.passes hu).le (by omega)
  · exact (hv.trans (h.passes hu)).le (by omega)

theorem HeadReached.reads {u : State} {b : Bool} (h : HeadReached s b t) (hu : Reads 16 t u) :
    HeadReached s b u := by
  rcases h with ⟨hb, h⟩ | ⟨hb, v, hv, h⟩
  · exact .inl ⟨hb, h.reads hu⟩
  · exact .inr ⟨hb, v, hv, h.reads hu⟩

theorem headBody_ends (hbelow : Fits below) (s : State) :
    Ends (headBody below) s fun _ t => Passes 40 s t := by
  let rank (seen : HeadParts) : Nat := if seen.hasCondition then 0 else 1
  refine Ends.bind (P := fun _ t => Passes 40 s t) (loop_ends
    (I := fun seen t => HeadReached s seen.hasCondition t) rank (by decide)
    (.inl ⟨rfl, .inl rfl⟩) fun seen t ht => ?_) fun _ t ht => .pure ht
  have hread {m n : Nat} {u v : State} (hu : Stays m t u) (hv : Reads n u v) (hn : m + n ≤ 16) :
      HeadReached s seen.hasCondition v ∧ v.rest.length < t.rest.length := by
    have htv : Reads 16 t v := (hu.passes.reads hv).le hn
    exact ⟨ht.reads htv, htv.shorter⟩
  refine (Stays.refl t).asks_atStageEnd fun u hu => ?_
  split
  · exact .pure ((ht.passes hu.passes).le (by decide))
  · refine hu.asks_atOption fun v hv => ?_
    split
    · next h =>
      obtain ⟨k, hk⟩ := next?_of_atOption h
      refine (optionArg_ends (hv.next?.trans hk)).bind fun _ w hw => .pure ?_
      obtain ⟨hreached, hlt⟩ := hread hv hw (by decide)
      exact ⟨hreached, Nat.add_lt_add_right hlt _⟩
    · refine hv.asks_current fun w hw => ?_
      have hlast {x : State} (hx : Stays 3 t x) : Ends (do
          if seen.hasCondition || seen.hasLimit then return .done seen
          expression below
          return .yield { seen with hasCondition := true }) x
          (RoundEnds (fun seen t => HeadReached s seen.hasCondition t) (fun _ t => Passes 40 s t)
            rank seen t) := by
        split
        · exact .pure ((ht.passes hx.passes).le (by decide))
        · next h =>
          have hno : seen.hasCondition = false :=
            (Bool.or_eq_false_iff.mp (Bool.eq_false_iff.mpr h)).1
          refine (expression_ends hbelow x).bind fun _ y hy => .pure ?_
          refine ⟨.inr ⟨rfl, y, ?_, .inl rfl⟩, ?_⟩
          · rcases ht with ⟨-, ht⟩ | ⟨hyes, -⟩
            · exact (ht.passes (hx.passes.trans hy)).le (by decide)
            · exact absurd (hno.symm.trans hyes) (by decide)
          · have := (hx.passes.trans hy).length_le
            have hrank : rank seen = 1 := by simp [rank, hno]
            change y.rest.length + 0 < t.rest.length + rank seen
            omega
      dsimp only
      split
      · refine hw.asks_ahead fun x hx => ?_
        split
        · exact hlast hx
        · next hnumber _ =>
          have hnext := eq_of_beq (Bool.and_eq_true_iff.mp hnumber).2
          refine (single_ends (hx.next?.trans hnext)).bind fun _ y hy => .pure ?_
          obtain ⟨hreached, hlt⟩ := hread hx hy (by decide)
          exact ⟨hreached, Nat.add_lt_add_right hlt _⟩
      · exact hlast hw

/-! ### Renaming -/

theorem renamePair_ends (h : s.next? = some k) : Ends renamePair s fun _ t => Reads 6 s t := by
  refine node_reads ((fieldItem_ends ((next?_opened s).trans h)).bind fun _ t ht => ?_)
  refine (expect_ends (.clause .as) "as" t).bind fun found u hu => ?_
  split
  · exact (ht.trans hu).andThen (by decide) (aliasName_ends u)
  · exact .pure ((ht.trans hu).le (by decide))

theorem renameBody_ends (s : State) : Ends renameBody s fun _ t => Passes 12 s t := by
  refine Ends.bind (loop_passes (m := 9) (k := 3) (by decide) fun count t => ?_)
    fun count t ht => ?_
  · refine (eat_ends .comma t).bind fun found u hu => ?_
    obtain ⟨rfl, -, hu⟩ | ⟨rfl, -, hu⟩ := hu
    · exact .pure ⟨hu.le (by decide), trivial⟩
    · refine hu.asks_atStageEnd fun v hv => ?_
      split
      · exact hv.stops (by decide) trivial
      · refine hv.asks_isIn fun w hw => ?_
        split
        · next h =>
          obtain ⟨k, hk, -⟩ := next?_of_any h
          exact hw.goesOn (by decide) (renamePair_ends (hw.next?.trans hk))
        · exact hw.stops (by decide) trivial
  · exact ht.notesIf (by decide) (report_ends _ t)

/-! ## Free arguments and nested queries -/

theorem aliasedArgument_ends (h : s.next? = some k) :
    Ends aliasedArgument s fun _ t => Reads 24 s t := by
  refine (mark_ends s).bind fun start t ht => ?_
  refine (argument_ends (ht.next?.trans h)).bind fun _ u hu => ?_
  refine (Stays.refl u).asks_isAt fun v hv => ?_
  have hsv : Reads 12 s v := ht.passes.reads (hu.trans hv.passes)
  split
  · next has =>
    have hnext : v.next? = some (.clause .as) := hv.next?.trans (eq_of_beq has)
    refine hsv.reading (n := 12) (by decide) (wrapFrom_bump_ends hnext fun w => ?_)
    refine (Stays.refl w).asks_isIn fun x hx => ?_
    split
    · next hvalue =>
      obtain ⟨k, hk, -⟩ := next?_of_any hvalue
      exact hx.passes.reading (by decide) (argument_ends (hx.next?.trans hk))
    · exact hx.passes.notes (by decide) (reportWith_ends _ _ x)
  · exact .pure (hsv.le (by decide))

theorem freeArgument_ends (hbelow : Fits below) (h : s.next? = some k) :
    Ends (freeArgument below k) s fun _ t => Reads 24 s t := by
  unfold freeArgument
  split
  · exact (subsearch_ends hbelow h).mono fun _ _ ht => ht.le (by decide)
  · exact (bump_ends_of_next? h).mono fun _ _ ht => ht.le (by decide)
  · exact (byClause_ends h).mono fun _ _ ht => ht.le (by decide)
  · exact (byClause_ends h).mono fun _ _ ht => ht.le (by decide)
  · exact (overClause_ends h).mono fun _ _ ht => ht.le (by decide)
  · exact (refuse_ends h).mono fun _ _ ht => ht.le (by decide)
  · have hother {t : State} (ht : Stays 0 s t) : Ends (do
        if k.isGlue || k == .lparen then aliasedArgument
        else refuseWith .unexpectedToken (ticked (← currentText))) t fun _ u => Reads 24 s u := by
      split
      · exact ht.passes.andReads (by decide) (aliasedArgument_ends (ht.next?.trans h))
      · refine ht.asks_text fun text u hu => ?_
        exact hu.passes.andReads (by decide) (refuseWith_ends (hu.next?.trans h))
    dsimp only
    split
    · refine (Stays.refl s).asks_isAhead fun t ht => ?_
      split
      · exact ht.passes.andReads (by decide) (optionArg_ends (ht.next?.trans h))
      · exact hother ht
    · exact hother (Stays.refl s)

theorem argumentList_ends (hbelow : Fits below) (s : State) :
    Ends (argumentList below) s fun _ t => Passes 30 s t := by
  refine whileTrue_passes (m := 26) (k := 4) (by decide) fun t => ?_
  refine (Stays.refl t).asks_atStageEnd fun u hu => ?_
  split
  · exact hu.answersNo (by decide) trivial
  · refine hu.asks_current fun v hv => ?_
    split
    · exact hv.answersNo (by decide) trivial
    · next hk => exact hv.answersYes (by decide) (freeArgument_ends hbelow (hv.next?.trans hk))

/-! ### Nested queries -/

theorem foreachBody_ends (hbelow : Fits below) (s : State) :
    Ends (foreachBody below) s fun _ t => Passes 30 s t := by
  refine Ends.bind (loop_passes (m := 17) (k := 3) (by decide) fun seen t => ?_)
    fun seen t ht => ?_
  · refine (Stays.refl t).asks_atStageEnd fun u hu => ?_
    split
    · exact hu.stops (by decide) trivial
    · next hend =>
      split
      · exact hu.stops (by decide) trivial
      · refine hu.asks_current fun v hv => ?_
        have hnext := hv.next?
        split
        · next hk => exact hv.goesOn (by decide) (bump_ends_of_next? (hnext.trans hk))
        · next hk => exact hv.goesOn (by decide) (subsearch_ends hbelow (hnext.trans hk))
        · refine hv.asks_atOption fun w hw => ?_
          split
          · next h =>
            obtain ⟨k, hk⟩ := next?_of_atOption h
            exact hw.goesOn (by decide) (optionArg_ends (hw.next?.trans hk))
          · next hoption =>
            split
            · next hfield => exact hw.goesOn (by decide) (fieldList_reads hw hend hoption hfield)
            · exact hw.stops (by decide) trivial
  · split
    · exact ht.notes (by decide) (report_ends _ t)
    · split
      · exact .pure (ht.le (by decide))
      · exact ht.notes (by decide) (reportWith_ends _ _ t)

theorem returnBody_ends (s : State) : Ends returnBody s fun _ t => Passes 30 s t := by
  refine (leadingNumber_ends s).bind fun _ t ht => ?_
  refine ht.andThen (n := 20) (by decide) ?_
  refine whileTrue_passes (m := 17) (k := 3) (by decide) fun u => ?_
  refine (Stays.refl u).asks_atStageEnd fun v hv => ?_
  split
  · exact hv.answersNo (by decide) trivial
  · refine hv.asks_current fun w hw => ?_
    split
    · next hk => exact hw.answersYes (by decide) (bump_ends_of_next? (hw.next?.trans hk))
    · refine hw.asks_atOption fun x hx => ?_
      split
      · next h =>
        obtain ⟨k, hk⟩ := next?_of_atOption h
        exact hx.answersYes (by decide) (optionArg_ends (hx.next?.trans hk))
      · split
        · next h =>
          obtain ⟨k, hk, -⟩ := next?_of_any h
          exact hx.answersYes (by decide) (fieldItem_ends (hx.next?.trans hk))
        · exact hx.answersNo (by decide) trivial

end SplQuery.Grammar
