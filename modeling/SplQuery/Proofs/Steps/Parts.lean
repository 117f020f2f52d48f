import SplQuery.Grammar.Parts
import SplQuery.Proofs.Steps.Recovery

/-!
# What shared parts may do

For each of the parts that many commands share: that it reads a lexeme where it is called for, and
how many looks ahead it spends after the last one.
-/

namespace SplQuery.Grammar

open SplQuery.Parser State

variable {s t : State} {k : Kind}

/-! ## Values -/

theorem balancedParens_ends (h : s.next? = some .lparen) :
    Ends balancedParens s fun _ t => Reads 4 s t := by
  refine (require_ends (by rw [h]; rfl)).bind fun _ t ht => ?_
  refine (pushOpener_ends .lparen t).bind fun _ u hu => ?_
  refine (bump_ends_of_next? (hu.next?.trans (ht.next?.trans h))).bind fun _ v hv => ?_
  refine Ends.bind (loop_passes (m := 1) (k := 1) (by decide) fun depth w => ?_)
    fun _ w hw => ?_
  · refine (Stays.refl w).asks_current fun x hx => ?_
    split
    · exact hx.stops (by decide) trivial
    · exact hx.stops (by decide) trivial
    · exact hx.stops (by decide) trivial
    · next h =>
      split
      · exact hx.stops (by decide) trivial
      · exact hx.goesOn (by decide) (bump_ends_of_next? (hx.next?.trans h))
    all_goals next h => exact hx.goesOn (by decide) (bump_ends_of_next? (hx.next?.trans h))
  · exact (close_ends _ _ w).mono fun _ _ hx => ht.passes.reads (hu.reads (hv.trans hw) hx)

/-- A lexeme directly ahead that is no trivia is the next one. -/
theorem next?_of_head {l : Kind} (hglued : s.rest.head?.any (!·.isTrivia) = true)
    (h : s.rest.head?.map (·.kind) = some l) : s.next? = some l := by
  obtain ⟨x, hx, rfl⟩ := Option.map_eq_some_iff.mp h
  rw [hx] at hglued
  obtain ⟨ls, hls⟩ := List.head?_eq_some_iff.mp hx
  rw [next?, State.ahead, hls, List.filter_cons_of_pos (by exact hglued)]
  rfl

/-- A run of lexemes that are written directly after one another. -/
theorem gluedWhile_ends (member : Kind → Bool) (s : State) :
    Ends (gluedWhile member) s fun _ t => Passes 2 s t := by
  refine whileTrue_passes (m := 1) (k := 1) (by decide) fun t => ?_
  refine (glued_ends t).bind fun isGlued u ⟨hu, hglued⟩ => ?_
  subst hu
  split
  · refine (adjacent_ends u).bind fun kind v ⟨hv, hrest, hkind⟩ => ?_
    split
    · next h =>
      refine hv.answersYes (by decide) (bump_ends fun hnil => ?_)
      rw [hkind, ← hrest, hnil] at h
      cases h
    · exact hv.answersNo (by decide) trivial
  · exact (Stays.refl u).answersNo (by decide) trivial

theorem gluedMore_ends (s : State) : Ends gluedMore s fun _ t => Passes 6 s t := by
  refine whileTrue_passes (m := 5) (k := 1) (by decide) fun t => ?_
  refine (glued_ends t).bind fun isGlued u ⟨hu, hglued⟩ => ?_
  subst hu
  split
  · next hyes =>
    refine (adjacent_ends u).bind fun kind v ⟨hv, _, hkind⟩ => ?_
    have hnext {k : Kind} (hk : kind = some k) : v.next? = some k := by
      rw [hv.next?]
      exact next?_of_head (hglued ▸ hyes) (hkind ▸ hk)
    split
    · exact hv.answersYes (by decide) (balancedParens_ends (hnext rfl))
    · split
      · exact hv.answersYes (by decide) (bump_ends_of_next? (hnext rfl))
      · exact hv.answersNo (by decide) trivial
    · exact hv.answersNo (by decide) trivial
  · exact (Stays.refl u).answersNo (by decide) trivial

theorem gluedRun_ends (h : s.next? = some k) : Ends gluedRun s fun _ t => Reads 11 s t := by
  refine (Stays.refl s).asks_isAt fun t ht => ?_
  split
  · next hparen =>
    refine (balancedParens_ends (ht.next?.trans (eq_of_beq hparen))).bind fun _ u hu => ?_
    exact (ht.passes.reads hu).andThen (by decide) (gluedMore_ends u)
  · refine (bump_ends_of_next? (ht.next?.trans h)).bind fun _ u hu => ?_
    exact (ht.passes.reads hu).andThen (by decide) (gluedMore_ends u)

theorem argument_ends (h : s.next? = some k) : Ends argument s fun _ t => Reads 11 s t :=
  node_reads (gluedRun_ends h)

/-! ## Options -/

theorem atOption_ends (s : State) : Ends atOption s fun b t => Stays 1 s t ∧ b = s.atOption := by
  refine (isIn_ends Kind.isWord s).bind fun b t ⟨ht, hb⟩ => ?_
  subst hb
  split
  · next h =>
    refine (isAhead_ends .equals t).mono fun c u ⟨hu, hc⟩ => ⟨ht.trans hu, ?_⟩
    rw [hc, ht.second?, State.atOption, h, Bool.true_and]
  · next h =>
    exact .pure ⟨ht, by rw [State.atOption, Bool.eq_false_iff.mpr h, Bool.false_and]⟩

end SplQuery.Grammar

namespace SplQuery.State.Stays

open SplQuery.Parser Grammar

theorem asks_atOption {β : Type} {n : Nat} {s t : State} {Q : β → State → Prop}
    (h : Stays n s t) {f : Bool → Parser β}
    (hf : ∀ u, Stays (n + 1) s u → Ends (f s.atOption) u Q) :
    Ends (Grammar.atOption >>= f) t Q := by
  refine (atOption_ends t).bind fun b u ⟨hu, hb⟩ => ?_
  rw [hb, h.atOption]
  exact hf u (h.trans hu)

end SplQuery.State.Stays

namespace SplQuery.Grammar

open SplQuery.Parser State

variable {s t : State} {k : Kind}

/-- Where an option starts there is a lexeme to read. -/
theorem next?_of_atOption (h : s.atOption = true) : ∃ k, s.next? = some k := by
  rw [State.atOption, Bool.and_eq_true, Option.any_eq_true] at h
  obtain ⟨⟨k, hk, -⟩, -⟩ := h
  exact ⟨k, hk⟩

/-- What is in a class is something. -/
theorem next?_of_any {member : Kind → Bool} (h : s.next?.any member = true) :
    ∃ k, s.next? = some k ∧ member k = true :=
  Option.any_eq_true _ _ |>.mp h

theorem optionArg_ends (h : s.next? = some k) : Ends optionArg s fun _ t => Reads 14 s t := by
  refine node_bump_ends h fun t => ?_
  refine (expect_ends .equals "=" t).bind fun _ u hu => ?_
  refine hu.andThen (n := 13) (by decide) (node_passes ?_)
  refine (orElse_ends (isIn_ends Kind.isGlue) (isAt_ends .lparen) (fun h => by rw [h.next?])
    (opened u)).bind fun b v ⟨hv, hb⟩ => ?_
  split
  · next hyes =>
    obtain ⟨k, hk⟩ : ∃ k, v.next? = some k := by
      rw [hv.next?]
      rcases Bool.or_eq_true_iff.mp (hb.symm.trans hyes) with h | h
      · obtain ⟨k, hk, -⟩ := next?_of_any h
        exact ⟨k, hk⟩
      · exact ⟨_, eq_of_beq h⟩
    exact hv.passes.reading (by decide) (gluedRun_ends hk)
  · exact hv.passes.notes (by decide) (reportWith_ends _ _ v)

theorem options_ends (s : State) : Ends options s fun _ t => Passes 16 s t := by
  refine whileTrue_passes (m := 15) (k := 1) (by decide) fun t => ?_
  refine (Stays.refl t).asks_atOption fun u hu => ?_
  split
  · next h =>
    obtain ⟨k, hk⟩ := next?_of_atOption h
    exact hu.answersYes (by decide) (optionArg_ends (hu.next?.trans hk))
  · exact hu.answersNo (by decide) trivial

/-! ## Fields -/

theorem fieldItem_ends (h : s.next? = some k) : Ends fieldItem s fun _ t => Reads 2 s t :=
  node_bump_ends h (gluedWhile_ends _)

theorem fieldOr_ends (missing : String) (s : State) :
    Ends (fieldOr missing) s fun _ t =>
      Passes 3 s t ∧ (s.next?.any Kind.startsField = true → Reads 3 s t) := by
  refine (Stays.refl s).asks_isIn fun t ht => ?_
  split
  · next h =>
    obtain ⟨k, hk, -⟩ := next?_of_any h
    refine (fieldItem_ends (ht.next?.trans hk)).mono fun _ _ hu => ?_
    exact ⟨(ht.passes.reads hu).passes, fun _ => ht.passes.reads hu⟩
  · next h =>
    refine (reportWith_ends _ _ t).mono fun _ _ hu => ?_
    exact ⟨(ht.trans hu).passes.le (by decide), fun hyes => absurd hyes h⟩

theorem aliasName_ends (s : State) : Ends aliasName s fun _ t => Passes 3 s t :=
  (fieldOr_ends _ s).mono fun _ _ h => h.1

theorem aliasedField_ends (h : s.next? = some k) :
    Ends aliasedField s fun _ t => Reads 6 s t := by
  refine (mark_ends s).bind fun start t ht => ?_
  refine (fieldItem_ends (ht.next?.trans h)).bind fun _ u hu => ?_
  refine (Stays.refl u).asks_isAt fun v hv => ?_
  split
  · next has =>
    have hnext : v.next? = some (.clause .as) := hv.next?.trans (eq_of_beq has)
    exact (wrapFrom_bump_ends hnext aliasName_ends).mono fun _ _ hw =>
      ht.passes.reads (hu.trans (hv.passes.trans hw.passes))
  · exact .pure ((ht.passes.reads (hu.trans hv.passes)).le (by decide))

/-- Whether a list of fields that the class `stop` ends has a first item. -/
def listStarts (stop : Kind → Bool) (s : State) : Bool :=
  !(s.atEnd || (s.next?.any stop || s.atOption)) && s.next?.any Kind.startsField

theorem fieldListOf_ends {n : Nat} {item : Parser Unit}
    (hitem : ∀ {s k}, s.next? = some k → Ends item s fun _ t => Reads n s t)
    (hn : 2 * (4 + n) < fullPatience) (stop : Kind → Bool) (s : State) :
    Ends (fieldListOf item stop) s fun _ t =>
      Passes (8 + n) s t ∧ (listStarts stop s = true → Reads (8 + n) s t) := by
  refine node_ends (Ends.mono (loop_round (m := 4 + n) (k := 4) (I := fun _ _ => True)
    (R := fun _ t _ _ => listStarts stop t = false) hn trivial fun count t _ => ?_) ?_)
  · refine (orElse_ends atStageEnd_ends (orElse_ends (isIn_ends stop) atOption_ends
      fun h => h.atOption) (fun h => by rw [h.next?, h.atOption]) t).bind fun b u ⟨hu, hb⟩ => ?_
    subst hb
    split
    · next h => exact hu.stops (by decide) (by rw [listStarts, h]; rfl)
    · refine hu.asks_current fun v hv => ?_
      split
      · next h => exact hv.goesOn (by omega) (bump_ends_of_next? (hv.next?.trans (eq_of_beq h)))
      · split
        · next h =>
          obtain ⟨k, hk, -⟩ := next?_of_any h
          exact hv.goesOn (by omega) (hitem (hv.next?.trans hk))
        · next h =>
          refine hv.stops (by decide) ?_
          rw [listStarts, Bool.eq_false_iff.mpr h, Bool.and_false]
  · rintro count t (⟨ht, hR⟩ | ⟨ht, -⟩)
    · refine ⟨(ht.le (by omega)).close, fun h => ?_⟩
      exact absurd (h.symm.trans hR) (by decide)
    · have ht' : Reads (8 + n) (opened s) t := ht.le (by omega)
      exact ⟨ht'.passes.close, fun _ => ht'.close⟩

theorem fieldList_ends (stop : Kind → Bool) (s : State) :
    Ends (fieldList stop) s fun _ t =>
      Passes 10 s t ∧ (listStarts stop s = true → Reads 10 s t) :=
  fieldListOf_ends fieldItem_ends (by decide) stop s

theorem aliasedFieldList_ends (stop : Kind → Bool) (s : State) :
    Ends (aliasedFieldList stop) s fun _ t => Passes 14 s t :=
  (fieldListOf_ends aliasedField_ends (by decide) stop s).mono fun _ _ h => h.1

/-- No lexeme that a field may start with ends a list of fields. -/
theorem endsFieldList_of_startsField (h : k.startsField = true) : k.endsFieldList = false := by
  cases k with
  | clause w => cases w <;> first | rfl | cases h
  | _ => rfl

/-- In the middle of a stage, where a field may start and no option does, a list of fields reads
its first item. -/
theorem fieldList_reads {n : Nat} (h : Stays n s t) (hend : ¬s.atEnd = true)
    (hoption : ¬s.atOption = true) (hfield : s.next?.any Kind.startsField = true) :
    Ends (fieldList Kind.endsFieldList) t fun _ u => Reads 10 t u := by
  refine (fieldList_ends Kind.endsFieldList t).mono fun _ _ hu => hu.2 ?_
  obtain ⟨k, hk, hstarts⟩ := next?_of_any hfield
  have hstop : s.next?.any Kind.endsFieldList = false := by
    rw [hk]
    exact endsFieldList_of_startsField hstarts
  rw [listStarts, h.atEnd, h.next?, h.atOption, hfield, hstop, Bool.eq_false_iff.mpr hend,
    Bool.eq_false_iff.mpr hoption]
  rfl

/-! ## Calls, numbers and clauses -/

theorem fieldCall_ends (h : s.next? = some k) : Ends fieldCall s fun _ t => Reads 9 s t := by
  refine node_bump_ends h fun t => ?_
  refine (pushOpener_ends .lparen t).bind fun _ u hu => ?_
  refine (expect_ends .lparen "(" u).bind fun _ v hv => ?_
  have hrest {w : State} (hw : Passes 4 u w) : Ends (do
      close .rparen .unclosedParen
      if ← eat (.clause .as) then aliasName) w fun _ x => Passes 9 t x := by
    refine (close_ends _ _ w).bind fun _ x hx => ?_
    have htx : Passes 5 t x := hu.passes hw hx
    refine (eat_passes _ x).bind fun found y hy => ?_
    split
    · exact (htx.trans hy).andThen (by decide) (aliasName_ends y)
    · exact .pure ((htx.trans hy).le (by decide))
  refine (Stays.refl v).asks_isIn fun w hw => ?_
  split
  · next hfield =>
    obtain ⟨k, hk, -⟩ := next?_of_any hfield
    refine (fieldItem_ends (hw.next?.trans hk)).bind fun _ x hx => ?_
    exact hrest (hv.trans (hw.passes.trans hx.passes))
  · exact hrest ((hv.trans hw.passes).le (by decide))

theorem atFieldCall_ends (s : State) :
    Ends atFieldCall s fun b t => Stays 1 s t ∧ (b = true → ∃ k, s.next? = some k) := by
  refine (Stays.refl s).asks_isIn fun t ht => ?_
  split
  · next h =>
    obtain ⟨k, hk, -⟩ := next?_of_any h
    exact (isAhead_ends .lparen t).mono fun _ _ hu => ⟨ht.trans hu.1, fun _ => ⟨k, hk⟩⟩
  · exact .pure ⟨ht, fun h => nomatch h⟩

theorem leadingNumber_ends (s : State) : Ends leadingNumber s fun _ t => Passes 1 s t := by
  refine (Stays.refl s).asks_isAt fun t ht => ?_
  split
  · next h =>
    refine (single_ends (ht.next?.trans (eq_of_beq h))).mono fun _ _ hu => ?_
    exact (ht.passes.reads hu).passes
  · exact .pure ht.passes

theorem byClause_ends (h : s.next? = some k) : Ends byClause s fun _ t => Reads 10 s t := by
  refine node_bump_ends h fun t => ?_
  refine (fieldList_ends Kind.endsFieldList t).bind fun count u hu => ?_
  exact hu.1.notesIf (by decide) (reportWith_ends _ _ u)

theorem overClause_ends (h : s.next? = some k) : Ends overClause s fun _ t => Reads 3 s t :=
  node_bump_ends h fun t => (fieldOr_ends _ t).mono fun _ _ hu => hu.1

end SplQuery.Grammar
