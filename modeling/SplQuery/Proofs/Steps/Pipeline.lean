import SplQuery.Grammar.Pipeline
import SplQuery.Proofs.Steps.Command

/-!
# What whole queries may do

The stages of a pipeline, and from them every level of nesting: what a level promises follows from
what the level below it promises, so all levels keep the promise of `Inner.Fits`.

* `fits_belowAt` — every level promises what the one above it needs.
* `query_ends` — a query reads all there is, from any state.
-/

namespace SplQuery.Grammar

open SplQuery.Parser State

variable {s t : State} {k : Kind} {below : Option Inner}

/-! ## Commands -/

theorem bodyOf_ends (hbelow : Fits below) (word : CommandWord) (s : State) :
    Ends (bodyOf below word) s fun _ t => Passes 90 s t := by
  have hle {p : Parser Unit} {n : Nat} (hn : n ≤ 90) (hp : Ends p s fun _ t => Passes n s t) :
      Ends p s fun _ t => Passes 90 s t :=
    hp.mono fun _ _ ht => ht.le hn
  unfold bodyOf
  split
  · exact hle (by decide) (searchExpr_ends hbelow nowhere s)
  · exact hle (by decide) (whereBody_ends hbelow s)
  · exact hle (by decide) (evalBody_ends hbelow s)
  · exact hle (by decide) (evalBody_ends hbelow s)
  iterate 5 exact hle (by decide) (statsBody_ends hbelow s)
  · exact hle (by decide) (tstatsBody_ends hbelow s)
  · exact hle (by decide) (renameBody_ends s)
  · exact hle (by decide) (rexBody_ends s)
  · exact hle (by decide) (regexBody_ends s)
  · exact hle (by decide) (lookupBody_ends s)
  · exact hle (by decide) (inputlookupBody_ends hbelow s)
  · exact hle (by decide) (tableBody_ends s)
  · exact hle (by decide) (fieldsBody_ends s)
  · exact hle (by decide) (dedupBody_ends s)
  · exact hle (by decide) (sortBody_ends s)
  · exact hle (by decide) (headBody_ends hbelow s)
  · exact hle (by decide) (topBody_ends s)
  · exact hle (by decide) (topBody_ends s)
  · exact hle (by decide) (convertBody_ends s)
  · exact hle (by decide) (replaceBody_ends s)
  · exact hle (by decide) (strcatBody_ends s)
  · exact hle (by decide) (trendlineBody_ends s)
  · exact hle (by decide) (returnBody_ends s)
  · exact hle (by decide) (fitBody_ends s)
  · exact hle (by decide) (foreachBody_ends hbelow s)
  · exact hle (by decide) (argumentList_ends hbelow s)

theorem finishStage_ends (s : State) : Ends finishStage s fun _ t => Passes 4 s t := by
  refine (Stays.refl s).asks_atStageEnd fun t ht => ?_
  split
  · exact .pure (ht.passes.le (by decide))
  · refine ht.asks_text fun text u hu => ?_
    exact hu.passes.andThen (by decide) ((recover_ends _ _ u).mono fun _ _ hv => hv.1)

theorem command_ends (hbelow : Fits below) {word : CommandWord}
    (h : s.next? = some (.command word)) :
    Ends (command below word) s fun _ t => Reads 96 s t := by
  refine (require_ends (by rw [h]; rfl)).bind fun _ t ht => ?_
  have hnext := ht.next?.trans h
  refine (require_ends (by rw [hnext]; exact beq_self_eq_true _)).bind fun _ u hu => ?_
  refine (ht.trans hu).passes.andReads (n := 94) (by decide) ?_
  refine inCommand_reads (node_bump_ends ((next?_entered _ u).trans (hu.next?.trans hnext))
    fun v => ?_)
  refine (bodyOf_ends hbelow word v).bind fun _ w hw => ?_
  exact hw.andThen (by decide) (finishStage_ends w)

theorem genericCommand_ends (hbelow : Fits below) (h : s.next? = some k) :
    Ends (genericCommand below) s fun _ t => Reads 34 s t := by
  refine inCommand_reads (node_bump_ends ((next?_entered _ s).trans h) fun t => ?_)
  refine (argumentList_ends hbelow t).bind fun _ u hu => ?_
  exact hu.andThen (by decide) (finishStage_ends u)

/-! ## Stages -/

theorem firstStage_ends (hbelow : Fits below) (s : State) :
    Ends (firstStage below) s fun _ t => Passes 97 s t := by
  refine (Stays.refl s).asks_current fun t ht => ?_
  split
  · next hk =>
    refine ht.asks_ahead fun u hu => ?_
    split
    · exact hu.passes.andThen (by decide) (searchExpr_ends hbelow nowhere u)
    · exact hu.passes.reading (by decide) (command_ends hbelow (hu.next?.trans hk))
  · exact ht.passes.andThen (by decide) (searchExpr_ends hbelow nowhere t)

theorem stage_ends (hbelow : Fits below) (s : State) :
    Ends (stage below) s fun _ t => Passes 97 s t := by
  refine (Stays.refl s).asks_current fun t ht => ?_
  have hreads {p : Parser Unit} {n : Nat} (hn : 1 + n ≤ 97)
      (hp : Ends p t fun _ u => Reads n t u) : Ends p t fun _ u => Passes 97 s u :=
    hp.mono fun _ _ hu => (ht.passes.reads hu).passes.le hn
  have hreport : Ends (report .expectedCommand) t fun _ u => Passes 97 s u :=
    ht.passes.notes (by decide) (report_ends _ t)
  split
  · next hk => exact hreads (by decide) (command_ends hbelow (ht.next?.trans hk))
  · next hk => exact hreads (by decide) (genericCommand_ends hbelow (ht.next?.trans hk))
  · next hk => exact hreads (by decide) (genericCommand_ends hbelow (ht.next?.trans hk))
  · exact hreport
  · exact hreport
  · exact hreport
  · refine ht.asks_text fun text u hu => ?_
    exact hu.passes.andThen (by decide) ((recover_ends _ _ u).mono fun _ _ hv => hv.1)

/-- Stages that are not nested go on to the end. -/
theorem stages_ends (hbelow : Fits below) (nested : Bool) (s : State) :
    Ends (stages below nested) s fun _ t =>
      Passes 100 s t ∧ (nested = false → t.next? = none) := by
  refine whileTrue_ends (m := 99) (k := 1) (by decide) fun t => ?_
  refine (Stays.refl t).asks_current fun u hu => ?_
  split
  · next hk => exact hu.answersNo (by decide) fun _ => hu.next?.trans hk
  · next hk =>
    split
    · next h => exact hu.answersNo (by decide) fun h' => nomatch h.symm.trans h'
    · exact hu.answersYes (by decide) (refuse_ends (hu.next?.trans hk))
  · next hk =>
    refine (bump_ends_of_next? (hu.next?.trans hk)).bind fun _ v hv => ?_
    refine (stage_ends hbelow v).bind fun _ w hw => .pure (.inl ⟨rfl, ?_⟩)
    exact (hu.passes.reads (hv.trans hw)).le (by decide)
  · next kind hbracket hpipe hk =>
    have hend : t.atEnd = false := by
      rw [State.atEnd, hk, Option.all_some]
      cases kind <;> first | rfl | exact absurd rfl ‹_›
    refine hu.asks_text fun text v hv => ?_
    refine hv.answersYes (r := 3) (by decide) ((recover_ends _ _ v).mono fun _ _ hw => hw.2 ?_)
    exact hv.atEnd.trans hend

theorem pipeline_ends (hbelow : Fits below) (nested : Bool) (s : State) :
    Ends (pipeline below nested) s fun _ t =>
      Passes 198 s t ∧ (nested = false → t.next? = none) := by
  refine node_ends ((Stays.refl _).asks_atStageEnd fun t ht => ?_)
  have hrest {u : State} (hu : Passes 98 (opened s) u) : Ends (stages below nested) u fun _ v =>
      Passes 198 s (v.closeNode .pipeline s.drain.built) ∧
        (nested = false → (v.closeNode .pipeline s.drain.built).next? = none) :=
    (stages_ends hbelow nested u).mono fun _ _ hv => ⟨(hu.trans hv.1).close, hv.2⟩
  split
  · exact hrest (ht.passes.le (by decide))
  · exact (firstStage_ends hbelow t).bind fun _ u hu => hrest (ht.passes.trans hu)

/-! ## Levels -/

/-- Every level keeps its promise if the one below it does. -/
theorem fits_belowAt (n : Nat) : Fits (belowAt n) := by
  induction n with
  | zero => exact fun inner hinner => nomatch hinner
  | succ n ih =>
    intro inner hinner
    obtain rfl := Option.mem_some.mp hinner
    refine ⟨fun s => ?_, fun stop s => ?_, fun s => ?_, fun least s => ?_⟩
    · exact (pipeline_ends ih true s).mono fun _ _ ht => ht.1.le (by decide)
    · exact (searchNot_ends ih stop s).mono fun _ _ ht => ht.1.le (by decide)
    · exact (searchTerms_ends ih nowhere s).mono fun _ _ ht => ht.le (by decide)
    · exact (operators_ends ih least s).mono fun _ _ ht => ht.le (by decide)

/-- A query leaves nothing to read, and its tree is one node put after what was there before. -/
theorem query_ends (limit : Nat) (s : State) :
    Ends (query limit) s fun _ t => Passes 198 s t ∧ t.rest = [] ∧ t.held = [] ∧
      ∃ children, t.built = .node .root children :: s.drain.built := by
  refine node_ends ((pipeline_ends (fits_belowAt limit) false _).bind fun _ t ⟨ht, hend⟩ => ?_)
  have hrest : t.skipTrivia.rest = [] := by
    obtain ⟨-, hrest⟩ | ⟨l, ls, -, hahead⟩ := rest_skipTrivia t
    · exact hrest
    · have hnone := hend rfl
      rw [next?, hahead] at hnone
      cases hnone
  refine .modify ⟨?_, hrest, rfl, _, rfl⟩
  exact (ht.trans ((passes_skipTrivia t).trans (stays_drain _).passes)).close

end SplQuery.Grammar
