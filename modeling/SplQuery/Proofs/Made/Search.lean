import SplQuery.Proofs.Made.Parts

/-!
# How searches and expressions are made

Searches and expressions are alike to themselves, whatever may be nested in them.
-/

namespace SplQuery.Grammar

open SplQuery.Parser

/-- A term without operators, where a lexeme of a kind is ahead. -/
def primaryAt (below : Option Inner) : Option Kind → Parser Unit
  | some .lparen => searchGroup below
  | some .lbracket => subsearch below
  | some .macroCall => single .searchMacro
  | some (.clause .or) | some (.clause .and) => do
    refuseWith .expectedExpression ("before " ++ ticked (← currentText))
  | kind => do
    if kind.any Kind.isGlue then searchValueTerm
    else refuseWith .unexpectedToken (ticked (← currentText))

/-- The next term or `and`, where there is one. -/
def moreTerms (below : Option Inner) (stop : Kind → Bool) : Parser Bool := do
  unless ← eat (.clause .and) do searchOr below stop
  return true

theorem searchPrimary_eq (below : Option Inner) (stop : Kind → Bool) :
    searchPrimary below stop = (atSearchEnd stop >>= fun b =>
      if b = true then report .expectedExpression else current >>= primaryAt below) := rfl

/-- The arguments of a call are a group. -/
theorem parenArguments_eq (below : Option Inner) :
    parenArguments below = parens (expect .lparen "(") (do
      unless ← isAt .rparen do
        unless ← atStageEnd do
          whileTrue (argumentStep below)) := by
  simp only [parenArguments, parens, bind_assoc, choice_bind, pure_bind]

namespace Alike

variable {both : Inners} {paired : Bool} {marks : Option (Nat × Nat)} {k : Kind}
  {stop : Kind → Bool}

/-! ## Searches -/

theorem searchValue (hk : k.isGlue = true) :
    Alike both paired marks (.here k) true Grammar.searchValue Grammar.searchValue :=
  .byRecipe (rfl : recipe? .searchValue = some _) hk
    (bumpThen rfl (Kind.free_of_member rfl hk) (gluedWhile rfl rfl))

theorem searchValueStep :
    Alike both paired marks .nothing false Grammar.searchValueStep Grammar.searchValueStep :=
  isIn rfl (fun _ hk => (andAfter (searchValue hk) fun _ => eatLast rfl rfl).forget) (.pure _)

theorem searchValueTerm (hk : k.isGlue = true) :
    Alike both true marks (.here k) true Grammar.searchValueTerm Grammar.searchValueTerm := by
  refine .mark fun m n => andAfter (searchValue hk) fun _ => ?_
  have hterm {s : Sight} : Alike both true (some (m, n)) s false
      (Parser.wrapFrom m .searchTerm (Pure.pure ()))
        (Parser.wrapFrom n .searchTerm (Pure.pure ())) :=
    .wrapFrom rfl (.inr rfl) (.pure ())
  refine .ask rfl rfl (idleAhead (fun _ => rfl) (fun _ => rfl) hterm) fun l _ =>
    ite (fun hl => ?_) fun _ => ?_
  · have hl : l.isComparison = true := hl
    refine (Alike.wrapFrom rfl (.inl rfl) (bumpThen rfl (Kind.free_of_member rfl hl) ?_)).forget
    exact isIn rfl (fun _ hk => (searchValue hk).forget) (.reportWith _ _)
  · refine isAhead rfl (ite (fun hin => ?_) fun _ => hterm) (ite (fun hin => ?_) fun _ => hterm)
    · obtain rfl : l = .clause .inWord := by simpa using hin
      have hvalues : Alike both true none (.next .lparen) true
          (parens Parser.bump searchValues) (parens Parser.bump searchValues) :=
        group rfl fun _ => repeated searchValueStep
      exact .forget (.wrapFrom rfl (.inl rfl) (.bump rfl rfl hvalues))
    · rw [Bool.and_false] at hin
      cases hin

theorem atSearchEnd {reads : Bool} {β : Type} {f g : Bool → Parser β}
    (hyes : ∀ s, Alike both true marks s reads (f true) (g true))
    (hno : ∀ k, k ≠ .pipe → Alike both true marks (.here k) reads (f false) (g false)) :
    Alike both true marks .nothing reads (Grammar.atSearchEnd stop >>= f)
      (Grammar.atSearchEnd stop >>= g) := by
  simp only [Grammar.atSearchEnd, bind_assoc, choice_bind, pure_bind]
  refine atStageEnd (hyes _) fun k hk _ => lookAt rfl (ite (fun _ => hyes _) fun _ => ?_)
  refine lookIn rfl ?_
  cases stop k with
  | true => exact hyes _
  | false => exact hno k hk

/-- A lexeme is ahead before which the search does not end. -/
theorem notAtSearchEnd {reads : Bool} {β : Type} {f g : Bool → Parser β}
    (hk : endsSearch stop k = false)
    (h : Alike both true marks (.here k) reads (f false) (g false)) :
    Alike both true marks (.here k) reads (Grammar.atSearchEnd stop >>= f)
      (Grammar.atSearchEnd stop >>= g) := by
  simp only [Grammar.atSearchEnd, bind_assoc, choice_bind, pure_bind]
  obtain ⟨hkinds, hstop⟩ := Bool.or_eq_false_iff.mp hk
  refine notAtStageEnd rfl ?_ ?_ (lookAt rfl (ite (fun hparen => ?_) fun _ => lookIn rfl ?_))
  · rintro rfl
    cases hkinds
  · rintro rfl
    cases hkinds
  · obtain rfl := eq_of_beq hparen
    cases hkinds
  · rw [hstop]
    exact h

/-- What is not expected is passed over, and its text is told. -/
theorem refuseTold (kind : DiagnosticKind) (tell : String → String) :
    Alike both true marks (.here k) true
      (currentText >>= fun w => Parser.refuseWith kind (tell w))
      (currentText >>= fun w => Parser.refuseWith kind (tell w)) :=
  .text rfl fun _ => .refuseWith rfl _ _

theorem searchGroup :
    Alike both true marks (.here .lparen) true (Grammar.searchGroup both.left)
      (Grammar.searchGroup both.right) :=
  .node rfl (.inl rfl) (group rfl fun _ => .descend .searchTerms)

theorem primaryAt :
    Alike both true marks (.here k) true (Grammar.primaryAt both.left (some k))
      (Grammar.primaryAt both.right (some k)) := by
  unfold Grammar.primaryAt
  split
  · next h =>
    cases h
    exact searchGroup
  · next h =>
    cases h
    exact .subsearch
  · next h =>
    cases h
    exact single rfl rfl rfl
  · exact refuseTold _ fun w => "before " ++ ticked w
  · exact refuseTold _ fun w => "before " ++ ticked w
  · exact ite searchValueTerm fun _ => refuseTold _ ticked

theorem searchPrimary :
    Alike both true marks .nothing false (Grammar.searchPrimary both.left stop)
      (Grammar.searchPrimary both.right stop) :=
  atSearchEnd (fun _ => .blind (.report _)) fun _ _ => .look rfl primaryAt.forget

theorem searchPrimaryHere (hk : endsSearch stop k = false) :
    Alike both true marks (.here k) true (Grammar.searchPrimary both.left stop)
      (Grammar.searchPrimary both.right stop) :=
  notAtSearchEnd hk (.look rfl primaryAt)

/-- A negation. -/
theorem negated :
    Alike both true marks (.here (.clause .not)) true
      (Parser.node .searchNot (Parser.bump >>= fun _ =>
        Parser.descend both.left true (·.searchNot stop)))
      (Parser.node .searchNot (Parser.bump >>= fun _ =>
        Parser.descend both.right true (·.searchNot stop))) :=
  .node rfl (.inl rfl) (bumpThen rfl rfl (.descend (.searchNot stop)))

theorem searchNot :
    Alike both true marks .nothing false (Grammar.searchNot both.left stop)
      (Grammar.searchNot both.right stop) :=
  isAt rfl negated.forget searchPrimary

theorem searchNotHere (hk : endsSearch stop k = false) :
    Alike both true marks (.here k) true (Grammar.searchNot both.left stop)
      (Grammar.searchNot both.right stop) :=
  lookAt rfl (ite (fun hnot => eq_of_beq hnot ▸ negated) fun _ => searchPrimaryHere hk)

/-- What is joined to the term before it. -/
theorem joined {m n : Nat} :
    Alike both true (some (m, n)) (.here (.clause .or)) true
      (Parser.wrapFrom m .searchOr (Parser.whileTrue (orStep both.left stop)))
      (Parser.wrapFrom n .searchOr (Parser.whileTrue (orStep both.right stop))) := by
  have hfirst : Alike both true none (.here (.clause .or)) true (orStep both.left stop)
      (orStep both.right stop) :=
    eatHere rfl (andThen searchNot fun _ => .pure _) rfl
  exact .wrapFrom rfl (.inl rfl)
    (whileTrue hfirst (eat rfl rfl (andThen searchNot fun _ => .pure _) (.pure _)))

theorem searchOr :
    Alike both true marks .nothing false (Grammar.searchOr both.left stop)
      (Grammar.searchOr both.right stop) :=
  .mark fun _ _ => andThen searchNot fun _ => isAt rfl joined.forget (.pure _)

theorem searchOrHere (hk : endsSearch stop k = false) :
    Alike both true marks (.here k) true (Grammar.searchOr both.left stop)
      (Grammar.searchOr both.right stop) :=
  .mark fun _ _ => andAfter (searchNotHere hk) fun _ => isAt rfl joined.forget (.pure _)

theorem searchTerms :
    Alike both true marks .nothing false (Grammar.searchTerms both.left stop)
      (Grammar.searchTerms both.right stop) := by
  refine repeated (atSearchEnd (fun _ => .pure _) fun k _ => .blind (eat rfl rfl (.pure _) ?_))
  exact andThen searchOr fun _ => .pure _

theorem moreTerms (hk : endsSearch stop k = false) :
    Alike both true marks (.here k) true (Grammar.moreTerms both.left stop)
      (Grammar.moreTerms both.right stop) :=
  eatKnown rfl (.pure _) (andAfter (searchOrHere hk) fun _ => .pure _)

/-- A search stands directly after the word that opens it. -/
theorem searchExpr :
    Alike both true marks .fresh false (Grammar.searchExpr both.left stop)
      (Grammar.searchExpr both.right stop) :=
  .searchNode (fun _ => moreTerms) searchTerms

theorem whereClause (hfree : (k.isDelimiter && true) = false) :
    Alike both true marks (.here k) true (Grammar.whereClause both.left stop)
      (Grammar.whereClause both.right stop) :=
  .node rfl (.inl rfl) (.bump rfl hfree searchExpr)

/-! ## Expressions -/

theorem expressionFrom (least : Nat) :
    Alike both paired marks .nothing false (Grammar.expressionFrom both.left least)
      (Grammar.expressionFrom both.right least) :=
  .descend (.expression least)

theorem expression :
    Alike both paired marks .nothing false (Grammar.expression both.left)
      (Grammar.expression both.right) :=
  expressionFrom 0

theorem argumentStep :
    Alike both paired marks .nothing false (Grammar.argumentStep both.left)
      (Grammar.argumentStep both.right) :=
  andThen expression fun _ => eatLast rfl rfl

theorem parenArguments :
    Alike both true marks .nothing false (Grammar.parenArguments both.left)
      (Grammar.parenArguments both.right) := by
  rw [parenArguments_eq, parenArguments_eq]
  exact expectedGroup fun _ => isAt rfl (.pure _)
    (atStageEnd (.pure _) fun _ _ _ => .blind (repeated argumentStep))

theorem atCallee {reads : Bool} {β : Type} {f g : Bool → Parser β}
    (hyes : ∀ k, k.isDelimiter = false → Alike both true marks (.here k) reads (f true) (g true))
    (hno : Alike both true marks .nothing reads (f false) (g false)) :
    Alike both true marks .nothing reads (Grammar.atCallee >>= f) (Grammar.atCallee >>= g) := by
  simp only [Grammar.atCallee, bind_assoc, choice_bind, pure_bind]
  refine .ask rfl rfl (.idleText (fun _ => rfl) (fun _ => rfl) hno) fun k _ => .text rfl fun w => ?_
  refine ite (fun hk => isAhead rfl (hyes k ?_).narrow hno.blind) fun _ => hno.blind
  cases k <;> first | rfl | cases hk

theorem callExpr (hfree : (k.isDelimiter && true) = false) :
    Alike both true marks (.here k) true (Grammar.callExpr both.left)
      (Grammar.callExpr both.right) :=
  .node rfl (.inl rfl) (bumpThen rfl hfree (.node rfl (.inr rfl) parenArguments))

theorem operand :
    Alike both true marks .nothing false (Grammar.operand both.left)
      (Grammar.operand both.right) := by
  refine atCallee (fun k hk => (callExpr (by rw [hk]; rfl)).forget) (.ask rfl rfl ?_ fun k _ => ?_)
  · exact atStageEnd (.report _) fun _ _ _ => (refuseTold _ fun w => "found " ++ ticked w).forget
  split
  · next h =>
    cases h
    exact .forget (.node rfl (.inl rfl) (group rfl fun _ => expression))
  · next h =>
    cases h
    refine .text rfl fun w => .forget (single rfl rfl ?_)
    split <;> rfl
  iterate 6
    · next h =>
      cases h
      exact (single rfl rfl rfl).forget
  · exact .blind (.report _)
  · exact .blind (.report _)
  · refine ite (fun hk => ?_) fun _ => lookAtEnd rfl fun b => ?_
    · have hk : k.isWord = true := hk
      exact (single rfl (Kind.free_of_member rfl hk) rfl).forget
    exact ite (fun _ => .blind (.report _)) fun _ =>
      (refuseTold _ fun w => "found " ++ ticked w).forget

theorem signedOperand :
    Alike both true marks .nothing false (Grammar.signedOperand both.left)
      (Grammar.signedOperand both.right) := by
  refine .ask rfl rfl operand fun k _ => ?_
  split
  iterate 2
    · next h =>
      cases h
      exact .forget (.node rfl (.inl rfl) (bumpThen rfl rfl (expressionFrom _)))
  · exact operand.blind

theorem operatorStep (least m n : Nat) :
    Alike both true (some (m, n)) .nothing false (Grammar.operatorStep both.left least m)
      (Grammar.operatorStep both.right least n) := by
  refine .ask rfl rfl (.pure _) fun k _ => ?_
  dsimp only
  cases hstrength : strength? k with
  | none => exact .pure _
  | some both =>
    have hfree : (k.isDelimiter && true) = false := by
      cases k <;> first | rfl | cases hstrength
    refine ite (fun _ => .pure _) fun _ => ite (fun _ => ?_) fun _ => ?_
    · refine isAhead rfl ?_ (.pure _)
      exact ((Alike.wrapFrom rfl (.inl rfl) (bumpThen rfl hfree parenArguments)).bind fun _ =>
        .pure _).forget
    · exact ((Alike.wrapFrom rfl (.inl rfl) (bumpThen rfl hfree (expressionFrom _))).bind fun _ =>
        .pure _).forget

/-- Operators with their operands, of any strength. -/
theorem operators (least : Nat) :
    Alike both true marks .nothing false (Grammar.operators both.left least)
      (Grammar.operators both.right least) :=
  .mark fun m n => andThen signedOperand fun _ => repeated (operatorStep least m n)

end Alike

end SplQuery.Grammar
