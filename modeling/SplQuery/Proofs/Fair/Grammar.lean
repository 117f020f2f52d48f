import SplQuery.Proofs.Fair.Made
import SplQuery.Proofs.Steps.Pipeline

/-!
# All of the grammar keeps states fair

What may be nested keeps states fair at every depth, and with it every production. A search and a
query may come out with nothing in them, where there was nothing to read.

* `Keeps.searchNode` — a search, which has nothing in it where it ends before its first term.
* `Grammar.Alike.keeps` — every production, given what may be nested in it.
-/

namespace SplQuery

open SplQuery.Tree State

/-- After a lexeme has just been read the trees end with it. -/
theorem State.endsSolid_of_justRead {s : State} (h : s.JustRead) :
    EndsSolid s.drain.built.reverse := by
  obtain ⟨hheld, l, ts, hbuilt, hl⟩ := h
  refine ⟨ts.reverse, l.kind, l.text, ?_, hl⟩
  rw [State.drain, hheld, hbuilt]
  exact List.reverse_cons

namespace Keeps

open SplQuery.Parser SplQuery.Grammar

variable {whole : Bool} {start : Nat} {s : State} {stop : Kind → Bool} {p : Parser Bool}

/-! ## Searches -/

theorem atSearchEnd_ends (stop : Kind → Bool) (s : State) :
    Ends (atSearchEnd stop) s fun b t => Peeked s t ∧ b = s.next?.elim true (endsSearch stop) := by
  have hpeeked : Ends (atSearchEnd stop) s fun _ t => Peeked s t := by
    have hfirst : Ends atStageEnd s fun _ t => Peeked s t := peeked_current s
    refine hfirst.bind fun b t ht => ?_
    split
    · exact .pure ht
    have hsecond : Ends (isAt .rparen) t fun _ u => Peeked s u := ht.current
    refine hsecond.bind fun b u hu => ?_
    split
    · exact .pure hu
    · exact hu.current
  refine ⟨hpeeked, (Grammar.atSearchEnd_ends stop s).2.trans ?_⟩
  rw [searchEnds, State.atEnd]
  cases hnext : s.next? with
  | none => rfl
  | some k =>
    cases k <;> rfl

/-- A round of a search either ends it where it is or reads something. -/
theorem searchRound (hmore : ∀ k, endsSearch stop k = false → Keeps (.here k) true p)
    (hs : s.Fair whole start) :
    (∃ t, Grammar.searchRound stop p s = (false, t) ∧ Peeked s t) ∨
      Kept whole start true s (Grammar.searchRound stop p s).2 := by
  obtain ⟨hpeeked, hends⟩ := atSearchEnd_ends stop s
  have hround : Grammar.searchRound stop p s =
      (if (atSearchEnd stop s).1 = true then Pure.pure false else p) (atSearchEnd stop s).2 := rfl
  rw [hround]
  split
  · exact .inl ⟨_, rfl, hpeeked⟩
  · next hgoes =>
    refine .inr ?_
    cases hnext : s.next? with
    | none =>
      rw [hends, hnext] at hgoes
      exact absurd rfl hgoes
    | some k =>
      rw [hends, hnext, Option.elim_some, Bool.not_eq_true] at hgoes
      have hread := hmore k hgoes whole start _ (hpeeked.fair hs) (hpeeked.here hnext)
      exact (hpeeked.kept hs).trans hread

/-- The rounds of a search put nothing in if the first of them ends the search. -/
theorem searchRounds (hmore : ∀ k, endsSearch stop k = false → Keeps (.here k) true p)
    (hs : s.Fair whole start) :
    Kept whole start false s (Grammar.searchRounds stop p s).2 ∧
      (Peeked s (Grammar.searchRounds stop p s).2 ∨
        hasToken (Grammar.searchRounds stop p s).2.built = true) := by
  have hround : Keeps .nothing false (Grammar.searchRound stop p) := by
    intro whole start t ht _
    obtain ⟨u, hu, hpeeked⟩ | hread := searchRound hmore ht
    · rw [hu]
      exact hpeeked.kept ht
    · exact hread.forget
  have hrounds (a : Unit) : Keeps .nothing false (roundOf (Grammar.searchRound stop p) a) :=
    hround.andAfter fun _ => pure _
  rw [Grammar.searchRounds]
  obtain ⟨t, ht, hpeeked⟩ | hread := searchRound hmore hs
  · rw [whileTrue_no ht]
    exact ⟨hpeeked.kept hs, .inl hpeeked⟩
  · rcases hstep : Grammar.searchRound stop p s with ⟨_ | _, t⟩ <;> rw [hstep] at hread
    · rw [whileTrue_no hstep]
      exact ⟨hread.forget, .inr (hread.token (.inl rfl))⟩
    · rw [whileTrue_yes hstep]
      have hall := hread.trans
        (loopFrom hrounds (s.rest.length + 1) () whole start t hread.fair trivial)
      exact ⟨hall.forget, .inr (hall.token (.inl rfl))⟩

/-- A search either has a lexeme that is no trivia or nothing in it at all. -/
theorem searchNode (hmore : ∀ k, endsSearch stop k = false → Keeps (.here k) true p)
    (hs : s.Fair whole start) (hbefore : whole = true → EndsSolid s.drain.built.reverse) :
    Kept whole start false s (Parser.node .searchExpr (Grammar.searchRounds stop p) s).2 := by
  obtain ⟨hinner, hends⟩ := searchRounds hmore hs.opened
  refine hs.close hinner ⟨fun hsolid => (by cases hsolid), fun _ => ?_, fun _ => ?_,
    fun herror => (by cases herror), fun hpipeline => (by cases hpipeline), nofun, nofun⟩
    fun hwhole _ => hbefore hwhole
  · rw [hasToken_reverse, List.reverse_eq_nil_iff]
    exact hends.symm.imp_right fun hpeeked => hpeeked.built
  · exact (hinner.fair.seated rfl).seated

/-- Directly after a lexeme there may be a search with nothing in it. -/
theorem searchAfter (hmore : ∀ k, endsSearch stop k = false → Keeps (.here k) true p) :
    Keeps .fresh false (Parser.node .searchExpr (Grammar.searchRounds stop p)) :=
  fun _ _ _ hs hread => searchNode hmore hs fun _ => endsSolid_of_justRead hread

/-! ## Other names -/

section Aliased

variable {member : Kind → Bool} {shape : Shape} {part : Parser Unit} {k : Kind} {t : State}

/-- What is read as another name is put after what there is. -/
theorem built_suffix_otherName (member : Kind → Bool) (shape : Shape) (part : Parser Unit)
    (s : State) :
    s.built <:+ (Grammar.otherName member (Parser.node shape part) s.bump).2.built := by
  have hbump : s.built <:+ s.bump.built := by
    rcases hrest : s.rest with _ | ⟨l, ls⟩
    · rw [State.bump, hrest]
      exact List.suffix_refl _
    · rw [bump_of_cons hrest]
      exact ⟨State.leaf l :: (s.held.map State.leaf).reverse, rfl⟩
  refine hbump.trans ?_
  change _ <:+ ((if (Parser.current s.bump).1.any member = true then Parser.node shape part
    else Parser.reportWith .expectedField "after \x60as\x60") (Parser.current s.bump).2).2.built
  rw [← (peeked_current s.bump).built]
  split
  · exact ⟨_ :: ((Parser.current s.bump).2.held.map State.leaf).reverse, rfl⟩
  · rw [reportWith_eq]
    exact List.suffix_refl _

theorem otherName (hmember : member .pipe = false) (hpart : ∀ k, Keeps (.here k) true part) :
    Keeps .nothing false (Grammar.otherName member part) := by
  refine ask (f := fun k => if k.any member = true then part else _) ?_ (reportWith _ _)
    fun k _ => ite (hpart k).forget (reportWith _ _)
  rw [Option.any_some, hmember]
  rfl

/-- The part that was read last, in a node together with its new name. -/
theorem renamed {inside before : List Tree} (hmember : member .pipe = false)
    (hpart : ∀ k, Keeps (.here k) true (Parser.node shape part)) (hs : s.Fair whole start)
    (hbuilt : s.built = .node shape inside :: before) (hplain : shape.isPlain = true)
    (htoken : hasToken inside = true) :
    Kept whole start false s
      (Parser.wrapFrom before.length .aliasedField
        (Parser.bump >>= fun _ => Grammar.otherName member (Parser.node shape part)) s).2 := by
  have hname : Keeps .nothing false (Parser.bump >>= fun _ =>
      Grammar.otherName member (Parser.node shape part)) :=
    bump.bind fun _ => otherName hmember hpart
  have hsince : sinceMark before.length s = 1 := by
    rw [sinceMark, hbuilt, List.length_cons]
    exact Nat.add_sub_cancel_left _ _
  have hcutBuilt : (cut before.length s).built = [.node shape inside] := by
    rw [cut, hsince, hbuilt]
    rfl
  have hcut := hs.cut before.length
  -- the mark stands before the part, so that the part is all there is in the new node
  have hseated : SeatedSoFar (cut before.length s).built := by
    rw [hcutBuilt]
    refine ⟨fun hvoid => ?_, trivial⟩
    rw [isVoid_of_plain hplain] at hvoid
    cases hvoid
  have hinner := hname true _ _ ⟨hcut.trees, fun _ => hseated, hcut.held, hcut.placed,
    hcut.filled, hcut.last, hcut.openers⟩ trivial
  obtain ⟨new, hnew⟩ := built_suffix_otherName member shape part (cut before.length s)
  rw [hcutBuilt] at hnew
  exact hs.wrapNamed hinner ((congrArg List.reverse hnew.symm).trans List.reverse_append) htoken

/-- A part that has just been read may be given another name. -/
theorem nameAfter {inside before : List Tree} (hmember : member .pipe = false)
    (hpart : ∀ k, Keeps (.here k) true (Parser.node shape part)) (hs : s.Fair whole start)
    (hbuilt : s.built = .node shape inside :: before) (hplain : shape.isPlain = true)
    (htoken : hasToken inside = true) :
    Kept whole start false s
      (Grammar.nameAfter before.length member (Parser.node shape part) s).2 := by
  have hat : Ends (Parser.isAt (.clause .as)) s fun _ t => Peeked s t :=
    (ends_current s).bind fun _ _ ht => ht.1
  have hends : Ends (Grammar.nameAfter before.length member (Parser.node shape part)) s
      fun _ t => Kept whole start false s t := by
    refine hat.bind fun b t ht => ?_
    split
    · exact (ht.kept hs).trans
        (renamed hmember hpart (ht.fair hs) (ht.built.trans hbuilt) hplain htoken)
    · exact ht.kept hs
  exact hends

/-- The node around a part with another name begins with the part. -/
theorem aliased (hmember : member .pipe = false) (hplain : shape.isPlain = true)
    (h : ∀ k, Keeps (.here k) true part) :
    Keeps (.here k) true (Grammar.aliased member (Parser.node shape part)) := by
  have hpart (k : Kind) : Keeps (.here k) true (Parser.node shape part) :=
    node hplain (.inl rfl) (h k)
  intro whole start s hs hholds
  have hmarked : Kept whole start false s s.skipTrivia.drain := eatTrivia whole start s hs hholds
  have hhere : (Sight.here k).Holds s.skipTrivia.drain := hholds.past.past_of_rest rfl
  have hread := hpart k whole start _ hmarked.fair hhere
  have hinside := h k true _ _ hmarked.fair.opened (hhere.inside rfl)
  refine hmarked.trans (hread.trans (nameAfter hmember hpart hread.fair rfl hplain ?_))
  rw [hasToken_reverse]
  exact hinside.token (.inl rfl)

end Aliased

end Keeps

namespace Grammar

open SplQuery.Parser

/-! ## Productions -/

/-- What may be nested keeps states fair. -/
structure InnersKeep (below : Option Inner) : Prop where
  nested : ∀ body, Nestable body → Keeps .nothing false (descend below true body)
  pipeline : Keeps .fresh false (descend below false (·.pipeline))

/-- A query between brackets is read directly after the bracket that opens it. -/
theorem InnersKeep.subsearch {below : Option Inner} (h : InnersKeep below) :
    Keeps (.here .lbracket) true (subsearch below) := by
  refine .require rfl rfl (.node rfl (.inl rfl) ?_)
  have hinside : Keeps .fresh false
      (inCommand none (descend below false (·.pipeline)) >>= fun _ =>
        close .rbracket .unclosedSubsearch) :=
    (Keeps.inCommand none h.pipeline).andAfter fun _ => .close _ _
  exact .peek (.pushOpener _) fun s hs =>
    ⟨.here .lbracket, hs.past.past_of_rest rfl, .bumpThen rfl hinside⟩

/-- A production keeps states fair if what may be nested in it does. -/
theorem Alike.keeps {both : Inners} {paired : Bool} {marks : Option (Nat × Nat)} {sight : Sight}
    {reads : Bool} {α : Type} {p q : Parser α} (hboth : InnersKeep both.left)
    (h : Alike both paired marks sight reads p q) :
    Keeps sight reads p := by
  have hsolid {reads : Bool} {shape : Shape} (hreads : reads = true ∨ shape.mayBeHollow = true) :
      reads = true ∨ shape.isSolid = false :=
    hreads.imp_right Shape.isSolid_of_hollow
  induction h with
  | blind _ ih => exact ih.blind
  | narrow _ ih => exact ih.narrow
  | forget _ ih => exact ih.forget
  | pure a => exact .pure a
  | bind _ _ ih ihf => exact ih.bind ihf
  | ask hf _ _ _ ihnone ihsome => exact .ask hf ihnone ihsome
  | look hsight _ ih => exact .look hsight ih
  | askSecond hf _ _ _ ihnone ihsome => exact .askSecond hf ihnone ihsome
  | idleSecond hf _ _ ih =>
    exact .peek .ahead fun s _ => ⟨.nothing, trivial, hf (Parser.ahead s).1 ▸ ih⟩
  | text hsight _ ih =>
    exact .peek .currentText fun s hs => ⟨_, hs.skipTrivia hsight, ih _⟩
  | idleText hf _ _ ih =>
    exact .peek .currentText fun s _ =>
      ⟨.nothing, trivial, hf (currentText s).1 ▸ ih⟩
  | touching hf _ _ ih => exact .touching hf ih
  | require hsight hmember _ ih => exact .require hsight hmember ih
  | bump hsight _ _ ih => exact .bumpThen hsight ih
  | bumpBlindly _ _ ih => exact .peek .bump fun _ _ => ⟨.nothing, trivial, ih⟩
  | node hshape hreads _ ih =>
    exact .node (Shape.isPlain_of_not_special (not_special_of_isOrdinary hshape)) (hsolid hreads) ih
  | byRecipe hrecipe _ _ ih =>
    exact .node (Shape.isPlain_of_not_special (not_special_of_recipe? hrecipe)) (.inl rfl) ih
  | searchNode _ _ ihmore _ => exact .searchAfter ihmore
  | mark _ ih =>
    exact .peek .eatTrivia fun s hs => ⟨_, hs.past.past_of_rest rfl, ih _ 0⟩
  | wrapFrom hshape hreads _ ih => exact .wrapFrom _ hshape (hsolid hreads) ih
  | aliased hshape _ hmember _ _ ih _ =>
    exact .aliased hmember (Shape.isPlain_of_not_special hshape) ih
  | report kind => exact .report kind
  | reportWith kind detail => exact .reportWith kind detail
  | refuse hsight kind => exact .refuse hsight kind
  | refuseWith hsight kind detail => exact .refuseWith hsight kind detail
  | recover kind detail => exact .recover kind detail
  | pushOpener kind _ ih =>
    exact .peek (.pushOpener kind) fun s hs => ⟨_, hs.past.past_of_rest rfl, ih⟩
  | close _ kind => exact .close _ kind
  | grouped _ _ _ _ ih => exact ih
  | balanced _ ih => exact ih
  | inCommand word _ ih => exact .inCommand word ih
  | loop _ _ ihfirst ihothers => exact .loop ihfirst ihothers
  | descend hbody => exact hboth.nested _ hbody
  | subsearch => exact hboth.subsearch

theorem keeps_of_alike {below : Option Inner} {sight : Sight} {reads : Bool} {α : Type}
    {p : Parser α} (hbelow : InnersKeep below) (h : Alike (.same below) true none sight reads p p) :
    Keeps sight reads p := h.keeps hbelow

end Grammar

end SplQuery
