import SplQuery.Grammar.Pipeline
import SplQuery.Proofs.Made.Search

/-!
# How commands are made

The arguments of every command are alike to themselves, and so is the whole command. Most commands
take their arguments in rounds, each of which asks for the end of the stage first.
-/

namespace SplQuery.Grammar

open SplQuery.Parser

namespace Alike

variable {both : Inners} {marks : Option (Nat × Nat)} {k : Kind}

/-- A part is read and something is answered. -/
theorem partReturn {sight : Sight} {α β : Type} {p q : Parser α} {a : α → β}
    (h : Alike both true marks sight true p q) :
    Alike both true marks sight false (p >>= fun x => Pure.pure (a x))
      (q >>= fun x => Pure.pure (a x)) :=
  (andAfter h fun _ => .pure _).forget

/-- What is known of the lexeme ahead may be said of the kind that it turned out to be. -/
theorem known {l : Kind} {reads : Bool} {α : Type} {p q : Parser α} (hkind : some k = some l)
    (h : Alike both true marks (.here l) reads p q) : Alike both true marks (.here k) reads p q :=
  Option.some.inj hkind ▸ h

/-- What is noted unless something was found. -/
theorem unlessFound {c : Prop} [Decidable c] {p : Parser Unit}
    (h : Alike both true marks .nothing false p p) :
    Alike both true marks .nothing false (if c then p else Pure.pure ())
      (if c then p else Pure.pure ()) :=
  ite (fun _ => h) fun _ => .pure _

/-! ## Commands that aggregate -/

theorem aggregation (hk : k.startsAggregation = true) :
    Alike both true marks (.here k) true (Grammar.aggregation both.left)
      (Grammar.aggregation both.right) := by
  suffices has : Alike both true none .nothing false _ _ from
    .node rfl (.inl rfl) (bumpThen rfl (Kind.free_of_member rfl hk) (isAt rfl
      (.blind (andThen (.node rfl (.inr rfl) parenArguments) fun _ => has)) has))
  exact eat rfl rfl (fieldOr _) (.pure _)

theorem statsBody :
    Alike both true marks .nothing false (Grammar.statsBody both.left)
      (Grammar.statsBody both.right) := by
  refine andThen (rounds fun count => ?_) fun _ => unlessFound (.report _)
  refine atStageEnd (.pure _) fun k _ _ => .look rfl ?_
  split
  · next h => exact known h (bumpReturn _ rfl rfl)
  · next h => exact known h (partReturn (byClause rfl))
  · next h => exact known h (partReturn (byClause rfl))
  · next h => exact known h (partReturn (overClause rfl))
  · exact atOption (fun hk => partReturn (optionArg hk))
      (otherwise (ite (fun hk => partReturn (aggregation hk)) fun _ => .pure _))

theorem fromSource (hfree : (k.isDelimiter && true) = false) :
    Alike both true marks (.here k) true Grammar.fromSource Grammar.fromSource :=
  .node rfl (.inl rfl) (bumpThen rfl hfree (askOption (fun _ hk => (optionArg hk).forget)
    (isIn rfl (fun _ hk => (value hk).forget) (.reportWith _ _))))

theorem tstatsBody :
    Alike both true marks .nothing false (Grammar.tstatsBody both.left)
      (Grammar.tstatsBody both.right) := by
  refine andThen (rounds fun count => ?_) fun _ => unlessFound (.report _)
  refine atStageEnd (.pure _) fun k _ _ => .look rfl ?_
  split
  · next h => exact known h (bumpReturn _ rfl rfl)
  · next h => exact known h (partReturn (fromSource rfl))
  · next h => exact known h (partReturn (whereClause rfl))
  · next h => exact known h (partReturn (byClause rfl))
  · next h => exact known h (partReturn (byClause rfl))
  · exact atOption (fun hk => partReturn (optionArg hk))
      (otherwise (ite (fun hk => partReturn (aggregation hk)) fun _ => .pure _))

theorem topBody : Alike both true marks .nothing false Grammar.topBody Grammar.topBody := by
  refine andThen leadingNumber fun _ => andThen (rounds fun count => ?_) fun _ =>
    unlessFound (.report _)
  refine atStageEnd (.pure _) fun k _ _ => .look rfl ?_
  split
  · next h => exact known h (bumpReturn _ rfl rfl)
  · next h => exact known h (partReturn (byClause rfl))
  · next h => exact known h (partReturn (byClause rfl))
  · exact atOption (fun hk => partReturn (optionArg hk))
      (otherwise (ite (fun _ => .blind (andThen (fieldList _) fun _ => .pure _)) fun _ => .pure _))

theorem featuresClause (hfree : (k.isDelimiter && true) = false) :
    Alike both true marks (.here k) true Grammar.featuresClause Grammar.featuresClause :=
  .node rfl (.inl rfl) (bumpThen rfl hfree (andThen (fieldList _) fun _ =>
    unlessFound (.reportWith _ _)))

theorem intoClause (hfree : (k.isDelimiter && true) = false) :
    Alike both true marks (.here k) true Grammar.intoClause Grammar.intoClause :=
  .node rfl (.inl rfl) (bumpThen rfl hfree
    (isIn rfl (fun _ hk => (value hk).forget) (.reportWith _ _)))

theorem fitArguments :
    Alike both true marks .nothing false Grammar.fitArguments Grammar.fitArguments := by
  refine repeated (atStageEnd (.pure _) fun k _ _ => .look rfl ?_)
  split
  · next h => exact known h (bumpReturn _ rfl rfl)
  · next h => exact known h (partReturn (featuresClause rfl))
  · next h => exact known h (partReturn (intoClause rfl))
  · next h => exact known h (bumpThen rfl rfl (andThen (fieldOr _) fun _ => .pure _)).forget
  · exact atOption (fun hk => partReturn (optionArg hk))
      (otherwise (ite (fun _ => .blind (andThen (fieldList _) fun _ => .pure _)) fun _ => .pure _))

theorem fitBody : Alike both true marks .nothing false Grammar.fitBody Grammar.fitBody := by
  unfold Grammar.fitBody
  rw [andM_bind]
  refine isIn rfl (fun k hk => ?_) (.reportWith _ _)
  have hfree : (k.isDelimiter && true) = false := Kind.free_of_member rfl hk
  rw [if_pos rfl, notM_bind]
  exact atOption (fun _ => .blind (.reportWith _ _))
    (andAfter (argument (.inr hfree)) fun _ => fitArguments).forget

/-! ## Commands that compute fields -/

theorem assignment (hk : k.startsField = true) :
    Alike both true marks (.here k) true (Grammar.assignment both.left)
      (Grammar.assignment both.right) :=
  .node rfl (.inl rfl) (andAfter (field hk) fun _ => expect rfl rfl fun _ =>
    ite (fun _ => expression) fun _ => .pure _)

theorem evalBody :
    Alike both true marks .nothing false (Grammar.evalBody both.left)
      (Grammar.evalBody both.right) := by
  refine andThen (rounds fun count => ?_) fun _ => .pure _
  refine isIn rfl (fun k hk => .forget (andAfter (assignment hk) fun _ => ?_)) ?_
  · exact eat rfl rfl (.pure _) (askOption (fun _ _ => .pure _) (.pure _))
  · exact otherwise (ite (fun _ => andThen (.reportWith _ _) fun _ => .pure _) fun _ => .pure _)

theorem convertBody :
    Alike both true marks .nothing false Grammar.convertBody Grammar.convertBody := by
  refine andThen (rounds fun count => ?_) fun _ => unlessFound (.reportWith _ _)
  refine atStageEnd (.pure _) fun k _ _ => .blind (eat rfl rfl (.pure _) ?_)
  refine askOption (fun _ hk => partReturn (optionArg hk)) ?_
  exact askFieldCall (fun _ hk => partReturn (fieldCall hk)) (.pure _)

theorem replacement (hk : k.isGlue = true) :
    Alike both true marks (.here k) true Grammar.replacement Grammar.replacement :=
  .node rfl (.inl rfl) (andAfter (value hk) fun _ => expect rfl rfl fun _ =>
    ite (fun _ => isIn rfl (fun _ hk => (value hk).forget) (.reportWith _ _)) fun _ => .pure _)

theorem replaceBody :
    Alike both true marks .nothing false Grammar.replaceBody Grammar.replaceBody := by
  refine andThen (rounds fun count => ?_) fun _ => ?_
  · rw [orM_bind]
    refine atStageEnd (.pure _) fun k _ _ => lookAt rfl (ite (fun _ => .pure _) fun _ => .blind ?_)
    exact eat rfl rfl (.pure _) (isIn rfl (fun _ hk => partReturn (replacement hk)) (.pure _))
  · suffices hfields : Alike both true marks .nothing false _ _ from
      ite (fun _ => andThen (.reportWith _ _) fun _ => hfields) fun _ => hfields
    exact eat rfl rfl (andThen (fieldList _) fun _ => unlessFound (.reportWith _ _)) (.pure _)

theorem strcatBody :
    Alike both true marks .nothing false Grammar.strcatBody Grammar.strcatBody := by
  refine andThen (rounds fun count => ?_) fun _ => unlessFound (.reportWith _ _)
  refine atStageEnd (.pure _) fun k _ _ => .blind (eat rfl rfl (.pure _) ?_)
  refine otherwise (.ask rfl rfl ?_ fun k _ => ?_)
  · refine askOption (fun _ hk => partReturn (optionArg hk)) (otherwise ?_)
    exact .idleText (fun _ => rfl) (fun _ => rfl) (.pure _)
  · refine atOption (fun hk => partReturn (optionArg hk)) (otherwise (.text rfl fun w => ?_))
    refine ite (fun hk => ?_) fun _ => ite (fun hk => partReturn (field hk)) fun _ => .pure _
    obtain ⟨hstring, -⟩ := Bool.and_eq_true_iff.mp hk
    exact known (eq_of_beq hstring) (partReturn (single rfl rfl rfl))

theorem trendlineBody :
    Alike both true marks .nothing false Grammar.trendlineBody Grammar.trendlineBody := by
  refine andThen (rounds fun count => ?_) fun _ => unlessFound (.reportWith _ _)
  refine atStageEnd (.pure _) fun k _ _ => .blind (eat rfl rfl (.pure _) ?_)
  exact askFieldCall (fun _ hk => partReturn (fieldCall hk)) (.pure _)

/-! ## Commands that extract and look up -/

theorem rexBody : Alike both true marks .nothing false Grammar.rexBody Grammar.rexBody := by
  refine andThen (rounds fun found => ?_) fun found => ?_
  · refine atStageEnd (.pure _) fun k _ _ =>
      atOption (fun hk => partReturn (optionArg hk)) (otherwise ?_)
    rw [andM_bind, pure_bind]
    refine ite (fun _ => .blind (isAt rfl (bumpReturn _ rfl rfl) (.pure _))) fun _ => .pure _
  · exact ite (fun _ => .pure _) fun _ => .reportWith _ _

theorem regexPattern :
    Alike both true marks .nothing false Grammar.regexPattern Grammar.regexPattern := by
  refine .ask rfl rfl (.reportWith _ _) fun k _ => ?_
  split
  · next h => exact known h (bumpLast rfl rfl).forget
  · exact ite (fun hk => (value hk).forget) fun _ => .blind (.reportWith _ _)

theorem regexBody : Alike both true marks .nothing false Grammar.regexBody Grammar.regexBody := by
  refine isIn rfl (fun k hk => ?_) regexPattern
  refine .askSecond rfl rfl (.blind regexPattern) fun l _ => ite (fun hl => ?_) fun _ =>
    .blind regexPattern
  have hfree : (l.isDelimiter && true) = false := by
    rcases Bool.or_eq_true_iff.mp hl with h | h <;> exact eq_of_beq h ▸ rfl
  exact .forget (.bump rfl (Kind.free_of_member rfl hk) (.bumpBlindly hfree regexPattern))

theorem outputClause (hk : startsOutput k = true) :
    Alike both true marks (.here k) true Grammar.outputClause Grammar.outputClause :=
  .node rfl (.inl rfl) (bumpThen rfl (Kind.free_of_member rfl hk)
    (andThen (aliasedFieldList _) fun _ => unlessFound (.reportWith _ _)))

theorem lookupBody :
    Alike both true marks .nothing false Grammar.lookupBody Grammar.lookupBody := by
  refine andThen options fun _ => isIn rfl (fun k hk => ?_) (.reportWith _ _)
  refine .forget (andAfter (value hk) fun _ => andThen (aliasedFieldList _) fun _ => ?_)
  suffices houtput : Alike both true marks .nothing false _ _ from
    ite (fun _ => andThen (.reportWith _ _) fun _ => houtput) fun _ => houtput
  exact andThen options fun _ => isIn rfl (fun _ hk => (outputClause hk).forget) (.pure _)

theorem inputlookupBody :
    Alike both true marks .nothing false (Grammar.inputlookupBody both.left)
      (Grammar.inputlookupBody both.right) := by
  refine andThen options fun _ => ?_
  suffices hwhere : Alike both true marks .nothing false _ _ by
    rw [andM_bind, andM_bind]
    refine isIn rfl (fun k hk => ?_) (andThen (.reportWith _ _) fun _ => hwhere)
    rw [if_pos rfl, if_pos rfl, notM_bind, notM_bind]
    refine lookAt rfl ?_
    cases k == .command .whereWord with
    | true => exact .blind (andThen (.reportWith _ _) fun _ => hwhere)
    | false => exact .forget (andAfter (value hk) fun _ => hwhere)
  exact andThen options fun _ => isAt rfl (whereClause rfl).forget (.pure _)

/-! ## Commands that select events and fields -/

theorem whereBody :
    Alike both true marks .nothing false (Grammar.whereBody both.left)
      (Grammar.whereBody both.right) :=
  atStageEnd (.report _) fun _ _ _ => .blind expression

theorem tableBody : Alike both true marks .nothing false Grammar.tableBody Grammar.tableBody :=
  andThen (fieldList _) fun _ => unlessFound (.report _)

theorem direction : Alike both true marks .nothing false Grammar.direction Grammar.direction := by
  unfold Grammar.direction
  rw [orM_bind]
  exact isAt rfl (bumpLast rfl rfl).forget (isAt rfl (bumpLast rfl rfl).forget (.pure _))

theorem fieldsBody : Alike both true marks .nothing false Grammar.fieldsBody Grammar.fieldsBody :=
  andThen direction fun _ => tableBody

theorem sortField : Alike both true marks .nothing false Grammar.sortField Grammar.sortField :=
  .node rfl (.inr rfl) (andThen direction fun _ =>
    askFieldCall (fun _ hk => (fieldCall hk).forget) (fieldOr _))

theorem sortFields :
    Alike both true marks .nothing false Grammar.sortFields Grammar.sortFields := by
  refine rounds fun count => eat rfl rfl (.pure _) (otherwise ?_)
  rw [orM_bind]
  refine atStageEnd (.pure _) fun k _ _ => otherwise ?_
  rw [orM_bind]
  refine atOption (fun _ => .pure _) (otherwise ?_)
  rw [notM_bind]
  refine lookIn rfl ?_
  cases startsSortField k with
  | true => exact .blind (andThen sortField fun _ => .pure _)
  | false => exact .pure _

theorem dedupBody : Alike both true marks .nothing false Grammar.dedupBody Grammar.dedupBody := by
  refine andThen leadingNumber fun _ => andThen (rounds fun count => ?_) fun _ =>
    unlessFound (.report _)
  refine atStageEnd (.pure _) fun k _ _ => otherwise (.look rfl (ite (fun hcomma => ?_)
    fun _ => atOption (fun hk => partReturn (optionArg hk))
      (otherwise (ite (fun hsortby => ?_) fun _ => ?_))))
  · exact known (eq_of_beq hcomma) (bumpReturn _ rfl rfl)
  · exact known (eq_of_beq hsortby)
      (bumpThen rfl rfl (andThen sortFields fun _ => .pure _)).forget
  · exact ite (fun _ => .blind (andThen (fieldList _) fun _ => .pure _)) fun _ => .pure _

theorem sortBody : Alike both true marks .nothing false Grammar.sortBody Grammar.sortBody := by
  refine andThen leadingNumber fun _ => andThen (rounds fun count => ?_) fun _ =>
    unlessFound (.report _)
  refine atStageEnd (.pure _) fun k _ _ => .blind (eat rfl rfl (.pure _) (otherwise ?_))
  refine askOption (fun _ hk => partReturn (optionArg hk)) (otherwise ?_)
  suffices hfields : Alike both true marks .nothing false _ _ from
    ite (fun _ => isIn rfl (fun _ _ => hfields.blind) (.pure _)) fun _ => hfields
  exact andThen sortFields fun _ => .pure _

theorem headBody :
    Alike both true marks .nothing false (Grammar.headBody both.left)
      (Grammar.headBody both.right) := by
  refine andThen (rounds fun seen => ?_) fun _ => .pure _
  refine atStageEnd (.pure _) fun k _ _ => otherwise (atOption (fun hk => partReturn (optionArg hk))
    (otherwise (.look rfl ?_)))
  suffices hcondition : Alike both true marks .nothing false _ _ by
    refine ite (fun hnumber => ?_) fun _ => hcondition.blind
    obtain ⟨-, hnumber⟩ := Bool.and_eq_true_iff.mp hnumber
    refine known (eq_of_beq hnumber) (.askSecond rfl rfl ?_ fun l _ => ?_)
    · exact partReturn (single rfl rfl rfl)
    · exact ite (fun _ => hcondition.blind) fun _ => partReturn (single rfl rfl rfl)
  exact ite (fun _ => .pure _) fun _ => andThen expression fun _ => .pure _

theorem renamePair (hk : k.startsField = true) :
    Alike both true marks (.here k) true Grammar.renamePair Grammar.renamePair :=
  .node rfl (.inl rfl) (andAfter (field hk) fun _ => expect rfl rfl fun _ =>
    ite (fun _ => fieldOr _) fun _ => .pure _)

theorem renameBody :
    Alike both true marks .nothing false Grammar.renameBody Grammar.renameBody := by
  refine andThen (rounds fun count => ?_) fun _ => unlessFound (.report _)
  refine eat rfl rfl (.pure _) (otherwise (atStageEnd (.pure _) fun k _ _ => otherwise ?_))
  exact lookIn rfl (ite (fun hk => partReturn (renamePair hk)) fun _ => .pure _)

/-! ## Free arguments and nested queries -/

theorem aliasedArgument (hk : (k.isGlue || k == .lparen) = true) :
    Alike both true marks (.here k) true Grammar.aliasedArgument Grammar.aliasedArgument := by
  refine .aliased rfl nofun rfl (fun _ => gluedRun (.inr (Bool.and_false _))) fun l hl =>
    gluedRun ?_
  rcases hl with rfl | hl
  · rcases Bool.or_eq_true_iff.mp hk with hglue | hparen
    · exact .inr (Kind.free_of_member rfl hglue)
    · exact .inl (eq_of_beq hparen)
  · exact .inr (Kind.free_of_member rfl hl)

theorem freeArgument :
    Alike both true marks (.here k) true (Grammar.freeArgument both.left k)
      (Grammar.freeArgument both.right k) := by
  unfold Grammar.freeArgument
  split
  · exact .subsearch
  · exact bumpLast rfl rfl
  · exact byClause rfl
  · exact byClause rfl
  · exact overClause rfl
  · exact .refuse rfl _
  · suffices hvalue : Alike both true marks (.here k) true _ _ from
      ite (fun hk => isAhead rfl (.narrow (optionArg hk)) hvalue) fun _ => hvalue
    exact otherwise (ite aliasedArgument fun _ => refuseTold _ ticked)

theorem argumentList :
    Alike both true marks .nothing false (Grammar.argumentList both.left)
      (Grammar.argumentList both.right) :=
  repeated (atStageEnd (.pure _) fun _ _ _ => .look rfl (partReturn freeArgument))

theorem foreachBody :
    Alike both true marks .nothing false (Grammar.foreachBody both.left)
      (Grammar.foreachBody both.right) := by
  refine andThen (rounds fun seen => ?_) fun seen => ?_
  · refine atStageEnd (.pure _) fun k _ _ => otherwise (ite (fun _ => .pure _) fun _ =>
      .look rfl ?_)
    split
    · next h => exact known h (bumpReturn _ rfl rfl)
    · next h =>
      cases h
      exact partReturn .subsearch
    · exact atOption (fun hk => partReturn (optionArg hk))
        (otherwise
          (ite (fun _ => .blind (andThen (fieldList _) fun _ => .pure _)) fun _ => .pure _))
  · exact ite (fun _ => .report _) fun _ => ite (fun _ => .pure _) fun _ => .reportWith _ _

theorem returnBody :
    Alike both true marks .nothing false Grammar.returnBody Grammar.returnBody := by
  refine andThen leadingNumber fun _ => repeated (atStageEnd (.pure _) fun k _ _ => .look rfl ?_)
  split
  · next h => exact known h (bumpReturn _ rfl rfl)
  · exact atOption (fun hk => partReturn (optionArg hk))
      (otherwise (ite (fun hk => partReturn (field hk)) fun _ => .pure _))

/-! ## Whole commands -/

/-- The arguments stand after the command's word, which has just been read. -/
theorem bodyOf (word : CommandWord) :
    Alike both true marks .fresh false (Grammar.bodyOf both.left word)
      (Grammar.bodyOf both.right word) := by
  unfold Grammar.bodyOf
  split
  case h_1 => exact searchExpr
  all_goals refine .blind ?_
  all_goals with_reducible first
    | exact whereBody
    | exact evalBody
    | exact statsBody
    | exact tstatsBody
    | exact renameBody
    | exact rexBody
    | exact regexBody
    | exact lookupBody
    | exact inputlookupBody
    | exact tableBody
    | exact fieldsBody
    | exact dedupBody
    | exact sortBody
    | exact headBody
    | exact topBody
    | exact convertBody
    | exact replaceBody
    | exact strcatBody
    | exact trendlineBody
    | exact returnBody
    | exact fitBody
    | exact foreachBody
    | exact argumentList

theorem finishStage :
    Alike both true marks .nothing false Grammar.finishStage Grammar.finishStage := by
  refine atStageEnd (.pure _) fun k _ _ => otherwise (.text rfl fun w => ?_)
  exact .blind (.recover _ _)

theorem command (word : CommandWord) :
    Alike both true marks (.here (.command word)) true (Grammar.command both.left word)
      (Grammar.command both.right word) := by
  refine .require rfl rfl (.require rfl (beq_self_eq_true _) (.inCommand _ ?_))
  refine .node ?_ (.inl rfl) (.bump rfl rfl (.bind (bodyOf word) fun _ => finishStage))
  cases word <;> rfl

theorem genericCommand (hfree : (k.isDelimiter && true) = false) :
    Alike both true marks (.here k) true (Grammar.genericCommand both.left)
      (Grammar.genericCommand both.right) :=
  .inCommand _ (.node rfl (.inl rfl)
    (bumpThen rfl hfree (andThen argumentList fun _ => finishStage)))

/-- A stage after a pipe. -/
theorem stage :
    Alike both true marks .nothing false (Grammar.stage both.left) (Grammar.stage both.right) := by
  refine .ask rfl rfl (.report _) fun k _ => ?_
  split
  · next h => exact known h (command _).forget
  · next h => exact known h (genericCommand rfl).forget
  · next h => exact known h (genericCommand rfl).forget
  · exact .blind (.report _)
  · exact .blind (.report _)
  · exact .blind (.report _)
  · exact .text rfl fun w => .blind (.recover _ _)

end Alike

/-- The next of the stages after the first one, or what is passed over in its place, where a lexeme
of a kind is ahead. -/
def nextStageAt (below : Option Inner) (nested : Bool) : Option Kind → Parser Bool
  | none => return false
  | some .rbracket => do
    if nested then return false
    refuse .unmatchedBracket
    return true
  | some .pipe => do
    bump
    stage below
    return true
  | some _ => do
    recover .unexpectedToken (ticked (← currentText))
    return true

/-- The next of the stages after the first one, or what is passed over in its place. -/
def nextStage (below : Option Inner) (nested : Bool) : Parser Bool := do
  nextStageAt below nested (← current)

/-- The stages after the first one are read one after another. -/
theorem stages_eq (below : Option Inner) (nested : Bool) :
    stages below nested = whileTrue (nextStage below nested) := rfl

/-- The stages of a pipeline. -/
def allStages (below : Option Inner) (nested : Bool) : Parser Unit := do
  unless ← atStageEnd do
    firstStage below
  stages below nested

end SplQuery.Grammar
