import SplQuery.Proofs.Made.Command
import SplQuery.Proofs.Twin.Steps

/-!
# Productions of two parses side by side

Every production is coupled to itself, since it is made of steps that are. A nested query is coupled
to itself where neither of the two queries ends before the other.

* `Grammar.Alike.coupled` — programs that are made in the same way.
* `Grammar.coupled_allStages` — the stages of a whole query.
* `Grammar.couples_belowAt` — what is nested, at every depth.
-/

namespace SplQuery.Grammar

open SplQuery.Parser SplQuery.State

variable {C : Coupling} {below : Option Inner}

/-- What may be nested without brackets is coupled to itself. -/
def CouplesNested (C : Coupling) (below : Option Inner) : Prop :=
  ∀ inner ∈ below, ∀ body, Nestable body → Coupled C none .nothing (body inner) (body inner)

/-- So are queries between brackets. -/
def CouplesSubsearch (C : Coupling) (below : Option Inner) : Prop :=
  Coupled C none (.here .lbracket) (subsearch below) (subsearch below)

/-- A part with another name is coupled if such parts are. -/
theorem coupled_aliased {marks : Option (Nat × Nat)} {k : Kind} {member : Kind → Bool}
    {part part' : Parser Unit} (hmember : member .pipe = false)
    (h : ∀ marks k, Coupled C marks (.here k) part part')
    (hfaults : ∀ k, KeepsFaultsAt (.here k) part) (hfaults' : ∀ k, KeepsFaultsAt (.here k) part') :
    Coupled C marks (.here k) (aliased member part) (aliased member part') := by
  have hname : Coupled C none .nothing (otherName member part) (otherName member part') :=
    .isIn hmember (h none) (.reportWith _ _)
  exact .mark fun m n => (h _ k).bind
    (fun _ => .isAt rfl (.wrapFrom _ (.bump (k := .clause .as) rfl hname.blind)) (.pure _))
    (fun _ => KeepsFaultsAt.nameAfter hmember hfaults m)
    fun _ => KeepsFaultsAt.nameAfter hmember hfaults' n

/-- Programs that are made in the same way are coupled. -/
theorem Alike.coupled {paired : Bool} {marks : Option (Nat × Nat)} {sight : Sight} {reads : Bool}
    {α : Type} {p q : Parser α} (hfaults : ∀ inner ∈ below, InnerKeepsFaults inner)
    (hnested : CouplesNested C below) (hsubsearch : CouplesSubsearch C below)
    (h : Alike (.same below) paired marks sight reads p q) : Coupled C marks sight p q := by
  induction h with
  | blind _ ih => exact ih.blind
  | narrow _ ih => exact ih.narrow
  | forget _ ih => exact ih
  | pure a => exact .pure a
  | bind _ hf ih ihf =>
    exact ih.bind ihf (fun a => ((hf a).keepsFaults hfaults).1.always)
      fun a => ((hf a).keepsFaults hfaults).2.always
  | ask hf hg _ _ ihnone ihsome => exact .ask hf hg ihnone ihsome
  | look hsight _ ih => exact .look hsight ih
  | askSecond hf hg _ _ ihnone ihsome => exact .askSecond hf hg ihnone ihsome
  | idleSecond hf hg _ ih => exact .idleSecond hf hg ih
  | text hsight _ ih => exact .text hsight ih
  | idleText hf hg _ ih => exact .idleText hf hg ih
  | touching hf hg _ ih => exact .touching hf hg ih
  | require hsight hmember _ ih => exact .require hsight hmember ih
  | bump hsight _ _ ih => exact .bump hsight ih
  | bumpBlindly _ _ ih => exact .bumpBlindly ih
  | node _ _ _ ih => exact .node _ ih
  | byRecipe _ _ _ ih => exact .node _ ih
  | searchNode _ _ _ ih => exact .node _ ih
  | mark _ ih => exact .mark ih
  | wrapFrom _ _ _ ih => exact .wrapFrom _ ih
  | aliased _ _ hmember h _ ih _ =>
    exact coupled_aliased hmember (fun _ k => .node _ (ih k))
      (fun k => .node _ ((h k).keepsFaults hfaults).1) fun k =>
        .node _ ((h k).keepsFaults hfaults).2
  | report kind => exact .report kind
  | reportWith kind detail => exact .reportWith kind detail
  | refuse hsight kind => exact .refuse hsight kind
  | refuseWith hsight kind detail => exact .refuseWith hsight kind detail
  | recover kind detail => exact .recover kind detail
  | pushOpener kind _ ih => exact .pushOpener kind ih
  | close hcloser kind => exact .close hcloser kind
  | grouped _ _ _ _ ih => exact ih
  | balanced _ ih => exact ih
  | inCommand word _ ih => exact .inCommand word ih
  | loop hfirst hothers ihfirst ihothers =>
    exact .loop ihfirst ihothers (fun a => ((hothers a).keepsFaults hfaults).1.always)
      fun a => ((hothers a).keepsFaults hfaults).2.always
  | descend hbody =>
    exact .descend (.inl rfl) fun inner hi => (hnested inner hi _ hbody).anyMarks
  | subsearch => exact hsubsearch.anyMarks

/-! ## Stages -/

section Stages

variable {marks : Option (Nat × Nat)}

theorem coupled_searchExpr (hfaults : ∀ inner ∈ below, InnerKeepsFaults inner)
    (hnested : CouplesNested C below) (hsubsearch : CouplesSubsearch C below)
    (stop : Kind → Bool) :
    Coupled C marks .nothing (searchExpr below stop) (searchExpr below stop) :=
  .node _ (Alike.searchTerms.coupled hfaults hnested hsubsearch)

theorem coupled_firstStage (hfaults : ∀ inner ∈ below, InnerKeepsFaults inner)
    (hnested : CouplesNested C below) (hsubsearch : CouplesSubsearch C below) :
    Coupled C marks .nothing (firstStage below) (firstStage below) := by
  have hsearch {s : Sight} :
      Coupled C marks s (searchExpr below nowhere) (searchExpr below nowhere) :=
    .blind (coupled_searchExpr hfaults hnested hsubsearch _)
  refine .ask rfl rfl hsearch fun k _ => ?_
  split
  · next h =>
    cases h
    have hcommand (w : CommandWord) :
        Coupled C marks (.here (.command w)) (command below w) (command below w) :=
      (Alike.command w).coupled hfaults hnested hsubsearch
    refine .askSecond rfl rfl (hcommand _) fun l _ => ?_
    split
    · exact hsearch
    · exact (hcommand _).narrow
  · exact hsearch

theorem coupled_stage (hfaults : ∀ inner ∈ below, InnerKeepsFaults inner)
    (hnested : CouplesNested C below) (hsubsearch : CouplesSubsearch C below) :
    Coupled C marks .nothing (stage below) (stage below) :=
  Alike.stage.coupled hfaults hnested hsubsearch

theorem coupled_nextStageAt (hfaults : ∀ inner ∈ below, InnerKeepsFaults inner)
    (hnested : CouplesNested C below) (hsubsearch : CouplesSubsearch C below) (nested : Bool)
    (k : Kind) : Coupled C marks (.here k) (nextStageAt below nested (some k))
      (nextStageAt below nested (some k)) := by
  unfold nextStageAt
  split
  · exact .pure _
  · split
    · exact .pure _
    · exact .bind (.refuse rfl _) (fun _ => .pure _) (fun _ => .pure _) fun _ => .pure _
  · exact .bump rfl (.blind (.bind (coupled_stage hfaults hnested hsubsearch) (fun _ => .pure _)
      (fun _ => .pure _) fun _ => .pure _))
  · exact .text rfl fun w => .blind (.bind (.recover _ _) (fun _ => .pure _) (fun _ => .pure _)
      fun _ => .pure _)

/-- The next stage, where neither query ends before the other. -/
theorem coupled_nextStage (htight : C.Tight) (hfaults : ∀ inner ∈ below, InnerKeepsFaults inner)
    (hnested : CouplesNested C below) (hsubsearch : CouplesSubsearch C below) (nested : Bool) :
    Coupled C marks .nothing (nextStage below nested) (nextStage below nested) :=
  .askTight htight (.pure _) (coupled_nextStageAt hfaults hnested hsubsearch nested)

theorem coupled_stages (htight : C.Tight) (hfaults : ∀ inner ∈ below, InnerKeepsFaults inner)
    (hnested : CouplesNested C below) (hsubsearch : CouplesSubsearch C below) (nested : Bool) :
    Coupled C marks .nothing (stages below nested) (stages below nested) :=
  .whileTrue (coupled_nextStage htight hfaults hnested hsubsearch nested)
    (keepsFaults_nextStage hfaults nested) (keepsFaults_nextStage hfaults nested)

theorem coupled_allStages (htight : C.Tight) (hfaults : ∀ inner ∈ below, InnerKeepsFaults inner)
    (hnested : CouplesNested C below) (hsubsearch : CouplesSubsearch C below) (nested : Bool) :
    Coupled C marks .nothing (allStages below nested) (allStages below nested) := by
  have hstages : Coupled C marks .nothing (stages below nested) (stages below nested) :=
    coupled_stages htight hfaults hnested hsubsearch nested
  refine .atStageEnd hstages (.bind (coupled_firstStage hfaults hnested hsubsearch)
    (fun _ => hstages) ?_ ?_)
  · exact fun _ => keepsFaults_stages hfaults nested
  · exact fun _ => keepsFaults_stages hfaults nested

/-- A query between brackets, where neither query ends before the other. -/
theorem coupled_subsearch (htight : C.Tight)
    (hpipeline : ∀ inner ∈ below, Coupled C none .nothing inner.pipeline inner.pipeline) :
    CouplesSubsearch C below := by
  refine .require rfl rfl (.node _ (.pushOpener _ (.bump rfl (.blind (.bind ?_ ?_ ?_ ?_)))))
  · exact .inCommand _ (.descend (.inr htight) hpipeline)
  · exact fun _ => .close (by decide) _
  · exact fun _ => .close _ _
  · exact fun _ => .close _ _

/-! ## Depth -/

theorem couplesNested_succ {n : Nat} (hnested : CouplesNested C (belowAt n))
    (hsubsearch : CouplesSubsearch C (belowAt n)) : CouplesNested C (belowAt (n + 1)) := by
  intro inner h body hbody
  cases h
  have hfaults := innerKeepsFaults_belowAt n
  cases hbody with
  | searchNot stop => exact Alike.searchNot.coupled hfaults hnested hsubsearch
  | searchTerms => exact Alike.searchTerms.coupled hfaults hnested hsubsearch
  | expression least => exact (Alike.operators least).coupled hfaults hnested hsubsearch

/-- Nesting without brackets, where nothing is said of brackets. -/
theorem couplesNested_belowAt (hsubsearch : ∀ n, CouplesSubsearch C (belowAt n)) (n : Nat) :
    CouplesNested C (belowAt n) := by
  induction n with
  | zero =>
    intro inner h
    cases h
  | succ n ih => exact couplesNested_succ ih (hsubsearch n)

/-- Nesting of all kinds, where neither query ends before the other. -/
theorem couples_belowAt (htight : C.Tight) (n : Nat) :
    CouplesNested C (belowAt n) ∧ CouplesSubsearch C (belowAt n) := by
  induction n with
  | zero =>
    refine ⟨fun inner h => ?_, coupled_subsearch htight fun inner h => ?_⟩ <;>
      cases h
  | succ n ih =>
    refine ⟨couplesNested_succ ih.1 ih.2, coupled_subsearch htight fun inner h => ?_⟩
    cases h
    exact .node _ (coupled_allStages htight (innerKeepsFaults_belowAt n) ih.1 ih.2 true)

end Stages

end SplQuery.Grammar
