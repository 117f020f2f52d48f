import SplQuery.Proofs.Made.Alike

/-!
# Questions and what follows on them

The questions that productions ask are made of those for the next lexeme and the one after it. For
each of them there is a rule that says what is known where its answer is yes.

* `Alike.isAt`, `Alike.isIn`, `Alike.atStageEnd` — the next lexeme.
* `Alike.atOption`, `Alike.askFieldCall` — the next two.
* `Alike.eat`, `Alike.expect` — a lexeme that is read if it is there.
* `orM_bind`, `andM_bind` — questions that are joined.
-/

namespace SplQuery.Grammar

open SplQuery.Parser

/-! ## Programs that are the same -/

section Programs

variable {β : Type} {p q : Parser Bool} {f : Bool → Parser β}

theorem orM_bind : ((p <||> q) >>= f) = (p >>= fun b => if b = true then f true else q >>= f) := by
  have h : (p <||> q) = (p >>= fun b => if b = true then pure true else q) := by
    unfold orM
    congr 1
    funext b
    cases b <;> rfl
  rw [h, bind_assoc]
  congr 1
  funext b
  cases b <;> rfl

theorem andM_bind :
    ((p <&&> q) >>= f) = (p >>= fun b => if b = true then q >>= f else f false) := by
  have h : (p <&&> q) = (p >>= fun b => if b = true then q else pure false) := by
    unfold andM
    congr 1
    funext b
    cases b <;> rfl
  rw [h, bind_assoc]
  congr 1
  funext b
  cases b <;> rfl

theorem choice_bind {α : Type} {c : Prop} [Decidable c] {p q : Parser α} {f : α → Parser β} :
    ((if c then p else q) >>= f) = if c then p >>= f else q >>= f := by
  split <;> rfl

theorem notM_bind : (notM p >>= f) = (p >>= fun b => f (!b)) := rfl

theorem eat_bind (kind : Kind) : (eat kind >>= f) =
    (isAt kind >>= fun b => if b = true then (bump >>= fun _ => f true) else f false) := by
  rw [eat, bind_assoc]
  congr 1
  funext b
  cases b <;> rfl

end Programs

namespace Alike

variable {both : Inners} {paired : Bool} {marks : Option (Nat × Nat)} {sight : Sight}
  {reads : Bool} {k kind : Kind} {member : Kind → Bool} {β : Type} {f g : Bool → Parser β}

/-! ## The next lexeme -/

theorem isAt (hpipe : (Kind.pipe == kind) = false)
    (hyes : Alike both paired marks (.here kind) reads (f true) (g true))
    (hno : Alike both paired marks .nothing reads (f false) (g false)) :
    Alike both paired marks .nothing reads (Parser.isAt kind >>= f) (Parser.isAt kind >>= g) := by
  have hnone : (none == some kind) = (some Kind.pipe == some kind) := hpipe.symm
  refine ask (f := fun k => f (k == some kind)) (g := fun k => g (k == some kind))
    (congrArg f hnone) (congrArg g hnone) hno fun k _ => ?_
  by_cases hk : k = kind
  · subst hk
    rw [beq_self_eq_true]
    exact hyes
  · have hfalse : (some k == some kind) = false :=
      beq_eq_false_iff_ne.mpr fun h => hk (Option.some.inj h)
    change Alike both paired marks (.here k) reads (f (some k == some kind))
      (g (some k == some kind))
    rw [hfalse]
    exact hno.blind

theorem isIn (hpipe : member .pipe = false)
    (hyes : ∀ k, member k = true → Alike both paired marks (.here k) reads (f true) (g true))
    (hno : Alike both paired marks .nothing reads (f false) (g false)) :
    Alike both paired marks .nothing reads (Parser.isIn member >>= f)
      (Parser.isIn member >>= g) := by
  refine ask (f := fun k => f (k.any member)) (g := fun k => g (k.any member))
    (congrArg f hpipe.symm) (congrArg g hpipe.symm) hno fun k _ => ?_
  change Alike both paired marks (.here k) reads (f (member k)) (g (member k))
  cases hk : member k with
  | true => exact hyes k hk
  | false => exact hno.blind

theorem atStageEnd (hyes : Alike both paired marks .nothing reads (f true) (g true))
    (hno : ∀ k, k ≠ .pipe → k ≠ .rbracket →
      Alike both paired marks (.here k) reads (f false) (g false)) :
    Alike both paired marks .nothing reads (Parser.atStageEnd >>= f) (Parser.atStageEnd >>= g) := by
  refine ask (f := fun k => f (k.all _)) (g := fun k => g (k.all _)) rfl rfl hyes fun k hk => ?_
  by_cases hbracket : k = .rbracket
  · subst hbracket
    exact hyes.blind
  · cases k <;> first
      | exact hno _ hk hbracket
      | exact absurd rfl hk
      | exact absurd rfl hbracket

theorem lookAt (hsight : sight.past.first? = some k)
    (h : Alike both paired marks sight.past reads (f (k == kind)) (g (k == kind))) :
    Alike both paired marks sight reads (Parser.isAt kind >>= f) (Parser.isAt kind >>= g) :=
  look (f := fun k => f (k == some kind)) (g := fun k => g (k == some kind)) hsight h

theorem lookIn (hsight : sight.past.first? = some k)
    (h : Alike both paired marks sight.past reads (f (member k)) (g (member k))) :
    Alike both paired marks sight reads (Parser.isIn member >>= f) (Parser.isIn member >>= g) :=
  look (f := fun k => f (k.any member)) (g := fun k => g (k.any member)) hsight h

theorem lookAtEnd (hsight : sight.past.first? = some k)
    (h : ∀ b, Alike both paired marks sight.past reads (f b) (g b)) :
    Alike both paired marks sight reads (Parser.atStageEnd >>= f) (Parser.atStageEnd >>= g) :=
  look (f := fun k => f (k.all _)) (g := fun k => g (k.all _)) hsight (h _)

theorem notAtStageEnd (hsight : sight.past.first? = some k) (hpipe : k ≠ .pipe)
    (hbracket : k ≠ .rbracket) (h : Alike both paired marks sight.past reads (f false) (g false)) :
    Alike both paired marks sight reads (Parser.atStageEnd >>= f) (Parser.atStageEnd >>= g) := by
  refine look (f := fun k => f (k.all _)) (g := fun k => g (k.all _)) hsight ?_
  cases k <;> first
    | exact h
    | exact absurd rfl hpipe
    | exact absurd rfl hbracket

/-! ## The next two lexemes -/

theorem isAhead (hpipe : (Kind.pipe == kind) = false)
    (hyes : Alike both paired marks (.pair k kind) reads (f true) (g true))
    (hno : Alike both paired marks (.here k) reads (f false) (g false)) :
    Alike both paired marks (.here k) reads (Parser.isAhead kind >>= f)
      (Parser.isAhead kind >>= g) := by
  have hnone : (none == some kind) = (some Kind.pipe == some kind) := hpipe.symm
  refine askSecond (f := fun l => f (l == some kind)) (g := fun l => g (l == some kind))
    (congrArg f hnone) (congrArg g hnone) hno fun l _ => ?_
  change Alike both paired marks (.pair k l) reads (f (l == kind)) (g (l == kind))
  by_cases hl : l = kind
  · subst hl
    rw [beq_self_eq_true]
    exact hyes
  · rw [beq_eq_false_iff_ne.mpr hl]
    exact hno.narrow

/-- The answer may be of no consequence. -/
theorem idleAhead (hf : ∀ b, f b = f false) (hg : ∀ b, g b = g false)
    (h : Alike both paired marks .nothing reads (f false) (g false)) :
    Alike both paired marks .nothing reads (Parser.isAhead kind >>= f)
      (Parser.isAhead kind >>= g) :=
  idleSecond (f := fun l => f (l == some kind)) (g := fun l => g (l == some kind))
    (fun _ => hf _) (fun _ => hg _) h

/-- Whether there is a word before a lexeme of a kind. -/
theorem wordBefore (hpipe : (Kind.pipe == kind) = false)
    (hyes : k.isWord = true → Alike both paired marks (.here k) reads (f true) (g true))
    (hno : Alike both paired marks (.here k) reads (f false) (g false)) :
    Alike both paired marks (.here k) reads
      ((Parser.isIn Kind.isWord >>= fun b =>
        if b = true then Parser.isAhead kind else Pure.pure false) >>= f)
      ((Parser.isIn Kind.isWord >>= fun b =>
        if b = true then Parser.isAhead kind else Pure.pure false) >>= g) := by
  rw [bind_assoc, bind_assoc]
  refine lookIn (k := k) rfl ?_
  cases hword : k.isWord with
  | true => exact isAhead hpipe (hyes hword).narrow hno
  | false => exact hno

theorem atOption
    (hyes : k.isWord = true → Alike both paired marks (.here k) reads (f true) (g true))
    (hno : Alike both paired marks (.here k) reads (f false) (g false)) :
    Alike both paired marks (.here k) reads (Grammar.atOption >>= f) (Grammar.atOption >>= g) :=
  wordBefore rfl hyes hno

/-- Where nothing is known, a yes tells that there is a word before that lexeme. -/
theorem askWordBefore (hpipe : (Kind.pipe == kind) = false)
    (hyes : ∀ k, k.isWord = true → Alike both paired marks (.pair k kind) reads (f true) (g true))
    (hno : Alike both paired marks .nothing reads (f false) (g false)) :
    Alike both paired marks .nothing reads
      ((Parser.isIn Kind.isWord >>= fun b =>
        if b = true then Parser.isAhead kind else Pure.pure false) >>= f)
      ((Parser.isIn Kind.isWord >>= fun b =>
        if b = true then Parser.isAhead kind else Pure.pure false) >>= g) := by
  rw [bind_assoc, bind_assoc]
  exact isIn rfl (fun k hk => isAhead hpipe (hyes k hk) hno.blind) hno

theorem askOption
    (hyes : ∀ k, k.isWord = true → Alike both paired marks (.here k) reads (f true) (g true))
    (hno : Alike both paired marks .nothing reads (f false) (g false)) :
    Alike both paired marks .nothing reads (Grammar.atOption >>= f) (Grammar.atOption >>= g) :=
  askWordBefore rfl (fun k hk => (hyes k hk).narrow) hno

theorem askFieldCall
    (hyes : ∀ k, k.isWord = true →
      Alike both paired marks (.pair k .lparen) reads (f true) (g true))
    (hno : Alike both paired marks .nothing reads (f false) (g false)) :
    Alike both paired marks .nothing reads (Grammar.atFieldCall >>= f)
      (Grammar.atFieldCall >>= g) :=
  askWordBefore rfl hyes hno

/-! ## Reading -/

theorem bumpLast (hsight : sight.first? = some k) (hfree : (k.isDelimiter && paired) = false) :
    Alike both paired marks sight true Parser.bump Parser.bump := by
  rw [← bind_pure Parser.bump]
  exact .bump hsight hfree (.pure ())

/-- What follows on the reading of a lexeme. -/
theorem bumpThen {f g : Unit → Parser β} (hsight : sight.first? = some k)
    (hfree : (k.isDelimiter && paired) = false)
    (h : Alike both paired marks .nothing false (f ()) (g ())) :
    Alike both paired marks sight true (Parser.bump >>= f) (Parser.bump >>= g) :=
  .bump hsight hfree h.blind

/-- A lexeme is read and something is answered. -/
theorem bumpReturn (a : β) (hsight : sight.first? = some k)
    (hfree : (k.isDelimiter && paired) = false) :
    Alike both paired marks sight false (Parser.bump >>= fun _ => Pure.pure a)
      (Parser.bump >>= fun _ => Pure.pure a) :=
  (bumpThen hsight hfree (.pure a)).forget

theorem single {shape : Shape} (hsight : sight.first? = some k)
    (hfree : (k.isDelimiter && paired) = false) (hshape : isOrdinary shape = true) :
    Alike both paired marks sight true (Parser.single shape) (Parser.single shape) := by
  refine .node hshape (.inl rfl) (bumpLast (k := k) ?_ hfree)
  cases sight <;> exact hsight

theorem eat (hpipe : (Kind.pipe == kind) = false) (hfree : (kind.isDelimiter && paired) = false)
    (hyes : Alike both paired marks .nothing reads (f true) (g true))
    (hno : Alike both paired marks .nothing reads (f false) (g false)) :
    Alike both paired marks .nothing reads (Parser.eat kind >>= f) (Parser.eat kind >>= g) := by
  rw [eat_bind, eat_bind]
  refine isAt hpipe ?_ hno
  cases reads with
  | true => exact .bump rfl hfree hyes.blind
  | false => exact (Alike.bump rfl hfree hyes.blind).forget

theorem eatLast (hpipe : (Kind.pipe == kind) = false)
    (hfree : (kind.isDelimiter && paired) = false) :
    Alike both paired marks .nothing false (Parser.eat kind) (Parser.eat kind) := by
  rw [← bind_pure (Parser.eat kind)]
  exact eat hpipe hfree (.pure _) (.pure _)

/-- What is known to be ahead is read. -/
theorem eatHere (hfree : (kind.isDelimiter && paired) = false)
    (h : Alike both paired marks .nothing reads (f true) (g true))
    (hsight : sight.past.first? = some kind) :
    Alike both paired marks sight true (Parser.eat kind >>= f) (Parser.eat kind >>= g) := by
  rw [Parser.eat, bind_assoc, bind_assoc]
  refine lookAt hsight ?_
  rw [beq_self_eq_true]
  exact Alike.bump (f := fun _ => f true) (g := fun _ => g true) hsight hfree h.blind

/-- A lexeme is ahead, which is read if it is of the kind. -/
theorem eatKnown (hfree : (kind.isDelimiter && paired) = false)
    (hyes : Alike both paired marks .nothing reads (f true) (g true))
    (hno : Alike both paired marks (.here k) true (f false) (g false)) :
    Alike both paired marks (.here k) true (Parser.eat kind >>= f) (Parser.eat kind >>= g) := by
  rw [eat_bind, eat_bind]
  refine lookAt rfl ?_
  cases hk : k == kind with
  | true =>
    exact .bump (f := fun _ => f true) (g := fun _ => g true) rfl (eq_of_beq hk ▸ hfree) hyes.blind
  | false => exact hno

theorem expect {spelling : String} (hpipe : (Kind.pipe == kind) = false)
    (hfree : (kind.isDelimiter && paired) = false)
    (h : ∀ b, Alike both paired marks .nothing reads (f b) (g b)) :
    Alike both paired marks .nothing reads (Parser.expect kind spelling >>= f)
      (Parser.expect kind spelling >>= g) := by
  rw [Parser.expect, bind_assoc, bind_assoc]
  refine eat hpipe hfree (h true) ?_
  exact (Alike.reportWith _ _).bind fun _ => h false

/-! ## Repetition -/

theorem whileTrue {body body' : Parser Bool}
    (hfirst : Alike both paired marks sight reads body body')
    (hothers : Alike both paired marks .nothing false body body') :
    Alike both paired marks sight reads (Parser.whileTrue body) (Parser.whileTrue body') := by
  have hround {s : Sight} {r : Bool} (h : Alike both paired marks s r body body') :
      Alike both paired marks s r (roundOf body ()) (roundOf body' ()) := by
    rw [← Bool.or_false r]
    exact h.bind fun b => .pure (if b = true then ForInStep.yield () else .done ())
  exact .loop (hround hfirst) fun _ => hround hothers

/-- Repetition of which the first round is like the others. -/
theorem repeated {body body' : Parser Bool}
    (h : Alike both paired marks .nothing false body body') :
    Alike both paired marks .nothing false (Parser.whileTrue body) (Parser.whileTrue body') :=
  whileTrue h h

theorem rounds {σ : Type} {init : σ} {body body' : σ → Parser (ForInStep σ)}
    (h : ∀ a, Alike both paired marks .nothing false (body a) (body' a)) :
    Alike both paired marks .nothing false (Parser.loop init body) (Parser.loop init body') :=
  .loop (h init) h

/-- A choice that both programs make in the same way. -/
theorem ite {c : Prop} [Decidable c] {p q p' q' : Parser β}
    (hyes : c → Alike both paired marks sight reads p p')
    (hno : ¬ c → Alike both paired marks sight reads q q') :
    Alike both paired marks sight reads (if c then p else q) (if c then p' else q') := by
  split
  · next h => exact hyes h
  · next h => exact hno h

/-- What is done where the answer to a question is no. -/
theorem otherwise {p q p' q' : Parser β} (h : Alike both paired marks sight reads q q') :
    Alike both paired marks sight reads (if false = true then p else q)
      (if false = true then p' else q') := h

/-- What follows on a step that may not read anything. -/
theorem andThen {α : Type} {p q : Parser α} {f g : α → Parser β}
    (h : Alike both paired marks sight false p q)
    (hf : ∀ a, Alike both paired marks .nothing false (f a) (g a)) :
    Alike both paired marks sight false (p >>= f) (q >>= g) := h.bind hf

/-- What follows on a step that reads something. -/
theorem andAfter {α : Type} {p q : Parser α} {f g : α → Parser β}
    (h : Alike both paired marks sight true p q)
    (hf : ∀ a, Alike both paired marks .nothing false (f a) (g a)) :
    Alike both paired marks sight true (p >>= f) (q >>= g) := h.bind hf

end Alike

end SplQuery.Grammar
