import SplQuery.Proofs.Law.Steps
import SplQuery.Proofs.Fair.Grammar

/-!
# The grammar keeps to every law

A relation that every basic step keeps to is kept to by every production, at whatever depth, and by
the parse of a whole query.

* `Grammar.Alike.heeds` — every production, given what may be nested in it.
* `Grammar.innersHeed_belowAt` — what may be nested, at every depth.
* `Parse.finalState_law` — whole parses.
-/

namespace SplQuery

open State

/-- What is known to come next is no pipe. -/
def Sight.Pipeless : Sight → Prop
  | .nothing | .fresh => True
  | .next k | .here k => k ≠ .pipe
  | .pair k l => k ≠ .pipe ∧ l ≠ .pipe

namespace Sight.Pipeless

variable {sight : Sight} {k : Kind}

theorem past (h : sight.Pipeless) : sight.past.Pipeless := by
  cases sight <;> exact h

theorem inside (h : sight.Pipeless) : sight.inside.Pipeless := by
  cases sight <;> first | exact h | trivial

theorem afterBump (h : sight.Pipeless) : sight.afterBump.Pipeless := by
  cases sight with
  | pair k l => exact h.2
  | _ => trivial

theorem ne_pipe (h : sight.Pipeless) (hsight : sight.first? = some k) : k ≠ .pipe := by
  cases sight with
  | here l =>
    cases hsight
    exact h
  | pair l m =>
    cases hsight
    exact h.1
  | _ => cases hsight

end Sight.Pipeless

namespace Grammar

open SplQuery.Parser

variable {known : Bool} {R : Bool → State → State → Prop}

theorem common_of_special {shape : Shape} (h : shape.isSpecial = true) (hne : shape ≠ .error) :
    Common known shape := by
  cases shape <;> first | exact ⟨hne, fun _ => rfl⟩ | cases h

theorem common_of_wrapped {shape : Shape} (h : shape.isWrapped = true) : Common known shape := by
  refine ⟨?_, fun _ => ?_⟩
  · rintro rfl
    cases h
  · cases shape <;> first | rfl | cases h

/-- What may be nested keeps to a relation. -/
structure InnersHeed (R : Bool → State → State → Prop) (below : Option Inner) : Prop where
  nested : ∀ body, Nestable body → Heeds R false .nothing (descend below true body)
  pipeline : Heeds R true .nothing (descend below false (·.pipeline))

theorem InnersHeed.subsearch {below : Option Inner} (law : Law known R) (h : InnersHeed R below) :
    Heeds R false (.here .lbracket) (subsearch below) := by
  have hinside : Heeds R true .fresh (inCommand none (descend below false (·.pipeline)) >>= fun _ =>
      close .rbracket .unclosedSubsearch) :=
    .bind law (.inCommand law none h.pipeline.blind) fun _ => .close law _ _
  have hbody : Heeds R true (.here .lbracket) (pushOpener .lbracket >>= fun _ => bump >>= fun _ =>
      inCommand none (descend below false (·.pipeline)) >>= fun _ =>
        close .rbracket .unclosedSubsearch) :=
    .peek law (.pushOpener law _) fun s hs =>
      ⟨.here .lbracket, hs.past.past_of_rest rfl, .bumpThen law rfl hinside⟩
  refine .require law rfl rfl fun s hs => ?_
  exact law.node false (common_of_special rfl nofun) (fun _ => rfl)
    (hbody (opened s) (hs.inside rfl))

/-- A node keeps to a law if it is made by the recipe for its shape, or if there is none. -/
theorem heeds_node {sight : Sight} {shape : Shape} {part : Parser Unit} (law : Law known R)
    (hshape : shape.isSpecial = false)
    (hrecipe : ∀ recipe, recipe? shape = some recipe →
      part = recipe.body ∧ recipe.starts sight = true)
    (h : Heeds R false sight.inside part) : Heeds R false sight (node shape part) := by
  have hne : shape ≠ .error := by
    rintro rfl
    cases hshape
  cases hmade : recipe? shape with
  | none => exact .node law ⟨hne, fun _ => hmade⟩ h
  | some recipe =>
    obtain ⟨rfl, hstarts⟩ := hrecipe recipe hmade
    -- a law that does not know how the node is made takes it for a node like any other
    cases known with
    | true =>
      intro s hs
      exact law.byRecipe false rfl hmade hstarts hs (h (opened s) (hs.inside rfl))
    | false => exact .node law ⟨hne, nofun⟩ h

/-- A part with another name keeps to a law if such parts do. -/
theorem heeds_aliased {k : Kind} {member : Kind → Bool} {part : Parser Unit} (law : Law known R)
    (hmember : member .pipe = false)
    (h : ∀ l, l = k ∨ member l = true → Heeds R false (.here l) part) :
    Heeds R false (.here k) (aliased member part) := by
  have hname : Heeds R false .nothing (otherName member part) := by
    refine .ask (f := fun l => if l.any member = true then part else _) law ?_
      (.reportWith law _ _) fun l _ => .ite (fun hl => h l (.inr hl)) fun _ => .reportWith law _ _
    rw [Option.any_some, hmember]
    rfl
  have hafter (start : Nat) : Heeds R false .nothing (nameAfter start member part) := by
    refine .ask (f := fun l => if (l == some (.clause .as)) = true then _ else _) law rfl
      (.pure law _) fun l _ => .ite (fun has => ?_) fun _ => .pure law _
    refine .wrapFrom law _ (common_of_special rfl nofun) ?_
    exact .bumpThen (k := l) law rfl hname.blind
  exact .peek law (.eatTrivia law) fun s hs =>
    ⟨.here k, hs.past.past_of_rest rfl, .bind law (h k (.inl rfl)) fun _ => hafter _⟩

/-- A production keeps to a law if what may be nested in it does. -/
theorem Alike.heeds {both : Inners} {paired : Bool} {marks : Option (Nat × Nat)} {sight : Sight}
    {reads : Bool} {α : Type} {p q : Parser α} (law : Law known R) (hboth : InnersHeed R both.left)
    (h : Alike both paired marks sight reads p q) (hsight : sight.Pipeless) :
    Heeds R false sight p := by
  have hplain {shape : Shape} (hshape : isOrdinary shape = true) : Common known shape := by
    refine ⟨?_, fun _ => recipe?_of_isOrdinary hshape⟩
    rintro rfl
    cases hshape
  -- the sight goes along with the induction: a lexeme that is refused must be known to be no pipe
  induction h with
  | blind _ ih => exact (ih trivial).blind
  | narrow _ ih => exact (ih hsight.1).narrow
  | forget _ ih => exact ih hsight
  | pure a => exact .pure law a
  | bind _ _ ih ihf => exact .bind law (ih hsight) fun a => ihf a trivial
  | ask hf _ _ _ ihnone ihsome => exact .ask law hf (ihnone trivial) fun k hk => ihsome k hk hk
  | look hknown _ ih => exact .look law hknown (ih hsight.past)
  | askSecond hf _ _ _ ihnone ihsome =>
    exact .askSecond law hf (ihnone hsight) fun l hl => ihsome l hl ⟨hsight, hl⟩
  | idleSecond hf _ _ ih =>
    exact .peek law (.skipTrivia law fun _ => rfl) fun s _ =>
      ⟨.nothing, trivial, hf (Parser.ahead s).1 ▸ ih trivial⟩
  | text hknown _ ih =>
    exact .peek law (.skipTrivia law fun _ => rfl) fun s hs =>
      ⟨_, hs.skipTrivia hknown, ih _ hsight⟩
  | idleText hf _ _ ih =>
    exact .peek law (.skipTrivia law fun _ => rfl) fun s _ =>
      ⟨.nothing, trivial, hf (currentText s).1 ▸ ih trivial⟩
  | touching hf _ _ ih => exact .touching law hf fun k hk => ih k hk hk
  | require hknown hmember _ ih => exact .require law hknown hmember (ih hsight)
  | bump hknown _ _ ih => exact .bumpThen law hknown (ih hsight.afterBump)
  | bumpBlindly _ _ ih => exact .peek law (.bump law) fun _ _ => ⟨.nothing, trivial, ih trivial⟩
  | node hshape _ _ ih => exact .node law (hplain hshape) (ih hsight.inside)
  | byRecipe hrecipe hstarts _ ih =>
    refine heeds_node law (not_special_of_recipe? hrecipe) (fun _ hmade => ?_) (ih hsight.inside)
    obtain rfl := Option.some.inj (hrecipe.symm.trans hmade)
    exact ⟨rfl, hstarts⟩
  | searchNode _ _ _ ih => exact .node law (common_of_special rfl nofun) (ih trivial)
  | mark _ ih =>
    exact .peek law (.eatTrivia law) fun s hs =>
      ⟨_, hs.past.past_of_rest rfl, ih _ 0 hsight.past⟩
  | wrapFrom hshape _ _ ih =>
    exact .wrapFrom law _ (common_of_wrapped hshape) (ih hsight.inside)
  | aliased hshape hrecipe hmember _ _ _ ih =>
    refine heeds_aliased law hmember fun l hl => heeds_node law hshape
      (fun recipe hmade => (hrecipe recipe hmade).imp_right fun h => h l hl) (ih l hl ?_)
    rcases hl with rfl | hl
    · exact hsight
    · rintro rfl
      rw [hmember] at hl
      cases hl
  | report kind => exact .report law kind
  | reportWith kind detail => exact .reportWith law kind detail
  | refuse hknown kind => exact .refuse law hknown (hsight.ne_pipe hknown) kind
  | refuseWith hknown kind detail =>
    exact .refuseWith law hknown (hsight.ne_pipe hknown) kind detail
  | recover kind detail => exact .recover law kind detail
  | pushOpener kind _ ih =>
    exact .peek law (.pushOpener law kind) fun s hs =>
      ⟨_, hs.past.past_of_rest rfl, ih hsight.past⟩
  | close _ kind => exact .close law _ kind
  | grouped _ _ _ _ ih => exact ih hsight
  | balanced _ ih => exact ih hsight
  | inCommand word _ ih => exact .inCommand law word (ih hsight)
  | loop _ _ ihfirst ihothers => exact .loop law (ihfirst hsight) fun a => ihothers a trivial
  | descend hbody => exact hboth.nested _ hbody
  | subsearch => exact hboth.subsearch law

/-! ## Stages -/

section Stages

variable {below : Option Inner}

theorem heeds_of_alike {sight : Sight} {reads : Bool} {p : Parser Unit} (law : Law known R)
    (hbelow : InnersHeed R below) (h : Alike (.same below) true none sight reads p p)
    (hsight : sight.Pipeless) : Heeds R false sight p := h.heeds law hbelow hsight

theorem heeds_searchExpr (law : Law known R) (hbelow : InnersHeed R below) (stop : Kind → Bool)
    {sight : Sight} : Heeds R false sight (searchExpr below stop) :=
  .node law (common_of_special rfl nofun)
    (Heeds.blind (heeds_of_alike law hbelow Alike.searchTerms trivial))

theorem heeds_firstStage (law : Law known R) (hbelow : InnersHeed R below) :
    Heeds R false .nothing (firstStage below) := by
  refine .ask law rfl (heeds_searchExpr law hbelow _) fun k hk => ?_
  split
  · next h =>
    cases h
    have hcommand (w : CommandWord) : Heeds R false (.here (.command w)) (command below w) :=
      heeds_of_alike law hbelow (Alike.command w) nofun
    refine .askSecond law rfl (hcommand _) fun l _ => ?_
    exact .ite (fun _ => heeds_searchExpr law hbelow _) fun _ => (hcommand _).narrow
  · exact heeds_searchExpr law hbelow _

theorem heeds_nextStage (law : Law known R) (hbelow : InnersHeed R below) (nested : Bool) :
    Heeds R false .nothing (nextStage below nested) := by
  refine .peek law (.current law) fun s _ => ?_
  rw [current_eq]
  unfold nextStageAt
  split
  · exact ⟨.nothing, trivial, .pure law _⟩
  · next hnext =>
    refine ⟨.here .rbracket, (peeked_skipTrivia s).look.here hnext, ?_⟩
    refine .ite (fun _ => .pure law _) fun _ => .bind law ?_ fun _ => .pure law _
    exact .refuse (k := .rbracket) law rfl nofun _
  · exact ⟨.nothing, trivial, .bind law (.bump law) fun _ =>
      .bind law (heeds_of_alike law hbelow Alike.stage trivial) fun _ => .pure law _⟩
  · exact ⟨.nothing, trivial, .bind law (.skipTrivia law fun _ => rfl) fun w =>
      .bind law (.recover law _ _) fun _ => .pure law _⟩

theorem heeds_allStages (law : Law known R) (hbelow : InnersHeed R below) (nested : Bool) :
    Heeds R false .nothing (allStages below nested) := by
  have hstages : Heeds R false .nothing (stages below nested) :=
    .whileTrue law (heeds_nextStage law hbelow nested)
  refine .bind law (.current law) fun k => ?_
  exact .ite (fun _ => hstages) fun _ => .bind law (heeds_firstStage law hbelow) fun _ => hstages

/-- Whatever a law asks for around a query, its stages are under a node of their own. -/
theorem heeds_pipeline (law : Law known R) (hbelow : InnersHeed R below) (nested : Bool)
    {loose : Bool} {sight : Sight} : Heeds R loose sight (pipeline below nested) :=
  .node law (common_of_special rfl nofun) (heeds_allStages law hbelow nested).blind

/-- What may be nested keeps to a law, however deep that may be. -/
theorem innersHeed_belowAt (law : Law known R) (n : Nat) : InnersHeed R (belowAt n) := by
  induction n with
  -- with no level left a query is passed over as a whole, which only a loose law allows
  | zero => exact ⟨fun body _ => .descend_none law true body, .descend_none law false _⟩
  | succ n ih =>
    refine ⟨fun body hbody => .descend law _ ?_, .descend law _ (heeds_pipeline law ih true)⟩
    cases hbody with
    | searchNot stop => exact heeds_of_alike law ih .searchNot trivial
    | searchTerms => exact heeds_of_alike law ih .searchTerms trivial
    | expression least => exact heeds_of_alike law ih (.operators least) trivial

end Stages

end Grammar

/-! ## Whole parses -/

/-- A parse keeps to every law, from its first state to its last. -/
theorem Parse.finalState_law {known : Bool} {R : Bool → State → State → Prop} (law : Law known R)
    (lexemes : List Lexeme) (stop limit : Nat) :
    R false (start lexemes stop) (finalState lexemes stop limit) := by
  have hquery : Heeds R false .nothing (Grammar.query limit) :=
    .node law (Grammar.common_of_special rfl nofun) (.bind law
      (Grammar.heeds_pipeline law (Grammar.innersHeed_belowAt law limit) false) fun _ =>
        .eatTrivia law)
  have hparse : Heeds R false .nothing (Grammar.query limit >>= fun _ => Parser.eatTrivia) :=
    .bind law hquery fun _ => .eatTrivia law
  exact hparse _ trivial

end SplQuery
