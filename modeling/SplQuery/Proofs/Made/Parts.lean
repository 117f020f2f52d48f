import SplQuery.Proofs.Made.Questions

/-!
# How shared parts are made

The parts that many commands share are alike to themselves.
-/

namespace SplQuery.Grammar

open SplQuery.Parser

/-- The call of a function of a field holds a group. -/
theorem fieldCall_eq : fieldCall = node .fieldCall callRecipe.body := by
  simp only [fieldCall, callRecipe, parens, bind_assoc, choice_bind, pure_bind]

namespace Alike

variable {both : Inners} {paired : Bool} {marks : Option (Nat × Nat)} {k : Kind}

/-! ## Groups -/

section Groups

variable {sight : Sight} {p q : Parser Unit}

/-- A group of which the parenthesis that opens it is directly ahead. -/
theorem group (hsight : sight.past.first? = some .lparen)
    (h : ∀ paired, Alike both paired marks .nothing false p q) :
    Alike both paired marks sight true (parens Parser.bump p) (parens Parser.bump q) := by
  have hsteps : Alike both false marks sight true (parens Parser.bump p) (parens Parser.bump q) :=
    .pushOpener _ (bumpThen hsight rfl (andThen (h false) fun _ => .close (by decide) _))
  cases paired with
  | false => exact hsteps
  | true => exact .grouped (.bump hsight) (h true) hsteps

/-- A group of which the parenthesis that opens it is missed where it is not. -/
theorem expectedGroup {spelling : String}
    (h : ∀ paired, Alike both paired marks .nothing false p q) :
    Alike both paired marks .nothing false (parens (Parser.expect .lparen spelling) p)
      (parens (Parser.expect .lparen spelling) q) := by
  have hsteps : Alike both false marks .nothing false (parens (Parser.expect .lparen spelling) p)
      (parens (Parser.expect .lparen spelling) q) :=
    .pushOpener (.lparen) (expect rfl rfl fun _ => andThen (h false) fun _ =>
      .close (by decide : Kind.rparen ≠ .pipe) _)
  cases paired with
  | false => exact hsteps
  | true => exact .grouped (.expect spelling) (h true) hsteps

end Groups

/-! ## Values -/

theorem balancedParens :
    Alike both paired marks (.here .lparen) true Grammar.balancedParens Grammar.balancedParens := by
  suffices hsteps : Alike both false marks (.here .lparen) true Grammar.balancedParens
      Grammar.balancedParens by
    cases paired with
    | false => exact hsteps
    | true => exact .balanced hsteps
  refine .require rfl rfl (.pushOpener .lparen (bumpThen rfl rfl (andThen (rounds fun depth => ?_)
    fun _ => .close (by decide) _)))
  refine .ask rfl rfl (.pure _) fun k hk => ?_
  split
  · exact .pure _
  · exact .pure _
  · exact .pure _
  · exact ite (fun _ => .pure _) fun _ => bumpReturn _ rfl (Bool.and_false _)
  · exact bumpReturn _ rfl (Bool.and_false _)
  · next h => exact bumpReturn _ rfl (Bool.and_false _)

theorem gluedWhile {member : Kind → Bool} (hpipe : member .pipe = false)
    (hfree : [Kind.lparen, .rparen, .lbracket, .rbracket].all (!member ·) = true) :
    Alike both paired marks .nothing false (Grammar.gluedWhile member)
      (Grammar.gluedWhile member) := by
  refine repeated (.touching (if_neg (by simpa using hpipe)) (if_neg (by simpa using hpipe))
    fun k _ => ?_)
  exact ite (fun hk => bumpReturn _ rfl (Kind.free_of_member hfree hk)) fun _ => .pure _

theorem gluedMore : Alike both paired marks .nothing false Grammar.gluedMore Grammar.gluedMore := by
  refine repeated (.touching rfl rfl fun k _ => ?_)
  split
  · next h =>
    cases h
    exact (balancedParens.bind fun _ => .pure _).forget
  · next h =>
    cases h
    exact ite (fun hk => bumpReturn _ rfl (Kind.free_of_member rfl hk)) fun _ => .pure _
  · exact .pure _

theorem gluedRun (hk : k = .lparen ∨ (k.isDelimiter && paired) = false) :
    Alike both paired marks (.here k) true Grammar.gluedRun Grammar.gluedRun := by
  refine lookAt rfl (ite (fun h => andAfter ?_ fun _ => gluedMore) fun h => ?_)
  · exact eq_of_beq h ▸ balancedParens
  · exact bumpThen rfl (hk.resolve_left fun heq => h (beq_iff_eq.mpr heq)) gluedMore

theorem argument (hk : k = .lparen ∨ (k.isDelimiter && paired) = false) :
    Alike both paired marks (.here k) true Grammar.argument Grammar.argument :=
  .node rfl (.inl rfl) (gluedRun hk)

/-- A value begins with what may be part of a value. -/
theorem value (hk : k.isGlue = true) :
    Alike both paired marks (.here k) true Grammar.argument Grammar.argument :=
  argument (.inr (Kind.free_of_member rfl hk))

/-! ## Options -/

theorem optionArg (hk : k.isWord = true) :
    Alike both paired marks (.here k) true Grammar.optionArg Grammar.optionArg := by
  refine .byRecipe (rfl : recipe? .optionArg = some optionRecipe) hk
    (bumpThen rfl (Kind.free_of_member rfl hk) (expect rfl rfl fun _ => .node rfl (.inr rfl) ?_))
  rw [orM_bind]
  exact isIn rfl (fun k hk => (gluedRun (.inr (Kind.free_of_member rfl hk))).forget)
    (isAt rfl (gluedRun (.inl rfl)).forget (.reportWith _ _))

theorem options : Alike both paired marks .nothing false Grammar.options Grammar.options :=
  repeated (askOption (fun _ hk => ((optionArg hk).bind fun _ => .pure _).forget) (.pure _))

/-! ## Fields -/

/-- A field name begins with what may start one. -/
theorem field (hk : k.startsField = true) :
    Alike both paired marks (.here k) true Grammar.fieldItem Grammar.fieldItem :=
  .byRecipe (rfl : recipe? .fieldItem = some _) hk
    (bumpThen rfl (Kind.free_of_member rfl hk) (gluedWhile rfl rfl))

theorem fieldOr (missing : String) :
    Alike both paired marks .nothing false (Grammar.fieldOr missing) (Grammar.fieldOr missing) :=
  isIn rfl (fun _ hk => (field hk).forget) (.reportWith _ _)

theorem aliasedField (hk : k.startsField = true) :
    Alike both paired marks (.here k) true Grammar.aliasedField Grammar.aliasedField := by
  have hstarts (l : Kind) (hl : l = k ∨ l.startsField = true) : l.startsField = true :=
    hl.elim (fun h => h ▸ hk) id
  refine .aliased rfl (fun recipe hrecipe => ?_) rfl
    (fun _ => bumpThen rfl (Bool.and_false _) (gluedWhile rfl rfl)) fun l hl =>
      bumpThen rfl (Kind.free_of_member rfl (hstarts l hl)) (gluedWhile rfl rfl)
  obtain rfl := Option.some.inj hrecipe
  exact ⟨rfl, hstarts⟩

theorem fieldListOf {item : Parser Unit} {stop : Kind → Bool}
    (hitem : ∀ k, k.startsField = true → Alike both paired none (.here k) true item item) :
    Alike both paired marks .nothing false (Grammar.fieldListOf item stop)
      (Grammar.fieldListOf item stop) := by
  refine .node rfl (.inr rfl) (rounds fun count => ?_)
  rw [orM_bind]
  refine atStageEnd (.pure _) fun k _ _ => ?_
  change Alike both paired none (.here k) false (_ >>= _) (_ >>= _)
  rw [orM_bind]
  refine lookIn rfl (ite (fun _ => .pure _) fun _ => atOption (fun _ => .pure _) (.look rfl ?_))
  refine ite (fun hcomma => ?_) fun _ => ite (fun hk => ?_) fun _ => .pure _
  · obtain rfl : k = .comma := Option.some.inj (eq_of_beq hcomma)
    exact bumpReturn _ rfl rfl
  · exact ((hitem k hk).bind fun _ => .pure _).forget

theorem fieldList (stop : Kind → Bool) :
    Alike both paired marks .nothing false (Grammar.fieldList stop) (Grammar.fieldList stop) :=
  fieldListOf fun _ => field

theorem aliasedFieldList (stop : Kind → Bool) :
    Alike both paired marks .nothing false (Grammar.aliasedFieldList stop)
      (Grammar.aliasedFieldList stop) :=
  fieldListOf fun _ => aliasedField

theorem fieldCall (hk : k.isWord = true) :
    Alike both paired marks (.pair k .lparen) true Grammar.fieldCall Grammar.fieldCall := by
  rw [fieldCall_eq]
  refine .byRecipe rfl hk (bumpThen rfl (Kind.free_of_member rfl hk) ?_)
  exact andThen (expectedGroup fun _ => isIn rfl (fun _ hk => (field hk).forget) (.pure _))
    fun _ => eat rfl rfl (fieldOr _) (.pure _)

theorem leadingNumber :
    Alike both paired marks .nothing false Grammar.leadingNumber Grammar.leadingNumber :=
  isAt rfl (single rfl rfl rfl).forget (.pure _)

/-! ## Clauses -/

theorem byClause (hfree : (k.isDelimiter && paired) = false) :
    Alike both paired marks (.here k) true Grammar.byClause Grammar.byClause :=
  .byRecipe (rfl : recipe? .byClause = some Grammar.byRecipe) rfl
    (bumpThen rfl hfree ((fieldList _).bind fun _ =>
      ite (fun _ => .reportWith _ _) fun _ => .pure _))

theorem overClause (hfree : (k.isDelimiter && paired) = false) :
    Alike both paired marks (.here k) true Grammar.overClause Grammar.overClause :=
  .node rfl (.inl rfl) (bumpThen rfl hfree (fieldOr _))

end Alike

end SplQuery.Grammar
