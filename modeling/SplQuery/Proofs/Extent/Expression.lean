import SplQuery.Proofs.Extent.Counted
import SplQuery.Proofs.Made.Search

/-!
# Expressions reach as far as they are counted

Each production of expressions reads, if it notes nothing, as many tokens as are counted. This is
told of tokens: `Measures` is `Takes` for what depends on the tokens only that lexemes are in a
text. Its rules are those of `Takes`, so that a step is followed with the tokens that it reads.

* `Measures` — a step that reads, if it notes nothing, tokens of which something holds.
* `Measures.ask`, `Measures.peek` — what a look shows of the tokens to come.
* `Measures.group` — a group in parentheses.
* `Measures.callee` — whether a function is called is seen from the tokens.
* `Measures.operand`, `Measures.operatorStep`, `Measures.operators` — the productions.
* `Measures.belowAt` — an expression, however deep it may be nested.
-/

namespace SplQuery

open Lexeme State

/-- The first of the tokens is of a kind. -/
def Begins (k : Kind) (ts : List Token) : Prop := ∃ t more, ts = t :: more ∧ t.kind = k

/-- `Takes`, told of the tokens that the lexemes are in a text. -/
abbrev Measures (text : List Char) {α : Type} (Q : List Token → α → List Token → Prop)
    (sight : Sight) (p : Parser α) : Prop :=
  Takes (fun read a rest => Q (tokens text read) a (tokens text rest)) sight p

namespace Measures

open SplQuery.Parser Grammar Extent

section Rules

variable {text : List Char} {α β : Type} {P P' : List Token → α → List Token → Prop}
  {Q : List Token → β → List Token → Prop} {sight : Sight} {k : Kind} {p : Parser α}

theorem mono (h : Measures text P sight p) (hP : ∀ read a rest, P read a rest → P' read a rest) :
    Measures text P' sight p :=
  Takes.mono h fun _ _ _ hread => hP _ _ _ hread

theorem blind (h : Measures text P .nothing p) : Measures text P sight p := Takes.blind h

theorem pure {a : α} (h : ∀ rest, P [] a rest) : Measures text P sight (Pure.pure a : Parser α) :=
  Takes.pure fun _ => h _

theorem ite {c : Prop} [Decidable c] {p q : Parser α} (hp : c → Measures text P sight p)
    (hq : ¬ c → Measures text P sight q) : Measures text P sight (if c then p else q) :=
  Takes.ite hp hq

theorem node (shape : Shape) (h : Measures text P sight.inside p) :
    Measures text P sight (Parser.node shape p) :=
  Takes.node shape h

theorem wrapFrom {P : List Token → Unit → List Token → Prop} {p : Parser Unit} (place : Nat)
    (shape : Shape) (h : Measures text P sight.inside p) :
    Measures text P sight (Parser.wrapFrom place shape p) :=
  Takes.wrapFrom place shape h

theorem bind {f : α → Parser β} (hp : Measures text P sight p)
    (hf : ∀ read a, Measures text
      (fun more b rest => P read a (more ++ rest) → Q (read ++ more) b rest) .nothing (f a)) :
    Measures text Q sight (p >>= f) := by
  refine Takes.bind hp fun read a => Takes.mono (hf (tokens text read) a) ?_
  intro more b rest hQ hread
  rw [tokens_append] at hread ⊢
  exact hQ hread

theorem peek {f : α → Parser β} (h : ∀ s, sight.Holds s → Glances s (p s).2)
    (hf : ∀ s, sight.Holds s → ∃ after : Sight, after.Holds (p s).2 ∧ Measures text
      (fun more b rest => more ++ rest = s.ahead.map (token text) → Q more b rest) after
        (f (p s).1)) : Measures text Q sight (p >>= f) := by
  refine Takes.peek h fun s hs => ?_
  obtain ⟨after, hafter, hnext⟩ := hf s hs
  refine ⟨after, hafter, Takes.mono hnext fun more b rest hQ hahead front hfront => ?_⟩
  have hmore : tokens text (front ++ more) = tokens text more := by
    rw [tokens_append, tokens, hfront, List.map_nil, List.nil_append]
  rw [hmore]
  refine hQ ?_
  rw [← tokens_append, tokens, hahead]

theorem here_of_ahead {s : State} {l : Lexeme} {ls : List Lexeme} (h : s.ahead = l :: ls) :
    (Sight.here l.kind).Holds s.skipTrivia.look := by
  have hnext : s.next? = some l.kind := by
    rw [State.next?, h]
    rfl
  exact (Sight.Holds.here_of_next? hnext).of_rest rfl (look_rest _)

/-- A look that shows nothing. -/
theorem after {f : α → Parser β} (h : ∀ s, Glances s (p s).2)
    (hf : ∀ a, Measures text Q .nothing (f a)) : Measures text Q sight (p >>= f) :=
  peek (fun s _ => h s) fun _ _ => ⟨.nothing, trivial, (hf _).mono fun _ _ _ hQ _ => hQ⟩

theorem ask {f : Option Kind → Parser β}
    (hnone : Measures text (fun more b rest => more ++ rest = [] → Q more b rest) .nothing
      (f none))
    (hsome : ∀ k, Measures text (fun more b rest => Begins k (more ++ rest) → Q more b rest)
      (.here k) (f (some k))) : Measures text Q .nothing (current >>= f) := by
  refine peek (fun s _ => glances_current s) fun s _ => ?_
  rw [current_eq, State.next?]
  cases hahead : s.ahead with
  | nil => exact ⟨.nothing, trivial, hnone⟩
  | cons l ls =>
    refine ⟨.here l.kind, here_of_ahead hahead, ?_⟩
    exact (hsome l.kind).mono fun more b rest hQ hmore => hQ ⟨_, _, hmore, rfl⟩

theorem bumpThen {f : Unit → Parser β} (hsight : sight.first? = some k)
    (h : ∀ t : Token, t.kind = k →
      Measures text (fun more b rest => Q (t :: more) b rest) sight.afterBump (f ())) :
    Measures text Q sight (bump >>= f) := by
  refine Takes.bumpThen hsight fun l hl hsolid => Takes.mono (h (token text l) hl) ?_
  intro more b rest hQ
  rw [tokens_cons hsolid]
  exact hQ

theorem eat (k : Kind) : Measures text
    (fun read b _ => read.map (·.kind) = if b = true then [k] else []) .nothing (Parser.eat k) :=
  (Takes.eat k).mono fun read _ _ hread => (kinds_tokens read).trans hread

theorem whileTrue {R : List Token → List Token → Prop} {body : Parser Bool}
    (h : Measures text (Takes.Round R) .nothing body) :
    Measures text (fun read _ rest => R read rest) .nothing (Parser.whileTrue body) := by
  refine Takes.whileTrue (Takes.mono h fun read goesOn rest hround => ?_)
  cases goesOn with
  | false => exact hround
  | true =>
    obtain ⟨hne, hmore⟩ := hround
    refine ⟨?_, fun more left hrest hleft => ?_⟩
    · rintro rfl
      exact hne rfl
    · rw [hrest, tokens_append] at hmore
      rw [tokens_append]
      exact hmore _ _ rfl hleft

/-- A round after which others follow. -/
theorem goesOn {R : List Token → List Token → Prop} {body : Parser Unit}
    (h : Measures text (fun read _ rest => read ≠ [] ∧
      ∀ more left, rest = more ++ left → R more left → R (read ++ more) left) sight body) :
    Measures text (Takes.Round R) sight (body >>= fun _ => Pure.pure true) := by
  refine h.bind fun read _ => .pure fun rest hread => ?_
  rw [List.append_nil]
  exact hread

/-- A group whose inside is contained. -/
theorem group {opening : Parser α} {body : Parser Unit}
    (hopening : Takes (fun read _ _ => kinds read = [.lparen]) sight.past opening)
    (hbody : Measures text (fun read _ _ => Contained (read.map (·.kind))) .nothing body) :
    Measures text (fun read _ _ => Grouped read) sight (parens opening body) := by
  have hkinds : Takes (fun read _ rest => (kinds rest).head? = some .rparen →
      Contained (kinds read)) .nothing body :=
    Takes.mono hbody fun read _ _ (hread : Contained ((tokens text read).map (·.kind))) _ =>
      kinds_tokens read ▸ hread
  refine (Takes.between hopening hkinds).mono fun read _ _ hread => ?_
  obtain ⟨inside, hread, hinside⟩ := hread.kinds_eq
  exact grouped_of_kinds ((kinds_tokens read).trans hread) hinside

end Rules

/-! ## Calls -/

/-- Whether the name of a function is next, by its kind and its text. -/
def namesCall (s : State) : Bool :=
  s.next?.any Kind.isWord || s.next? == some .booleanLiteral ||
    (s.next? == some .timeModifier &&
      Text.sameName (s.skipTrivia.rest.head?.elim "" (·.text)) "now")

theorem atCallee_eq (s : State) :
    Grammar.atCallee s = (namesCall s && s.second? == some .lparen, s.skipTrivia.look) := by
  -- after a look the next lexeme is directly ahead
  have hready : s.skipTrivia.look.Ready := (ready_skipTrivia s).of_rest (look_rest _)
  have hsecond : s.skipTrivia.look.second? = s.second? :=
    (second?_of_rest (look_rest _)).trans (second?_skipTrivia s)
  change (if ((current s).1.any Kind.isWord || (current s).1 == some .booleanLiteral ||
      ((current s).1 == some .timeModifier &&
        Text.sameName ((current s).2.skipTrivia.rest.head?.elim "" (·.text)) "now")) = true
    then isAhead .lparen else Pure.pure false : Parser Bool) (current s).2.skipTrivia = _
  rw [current_eq, hready.skipTrivia, look_rest, namesCall]
  split
  case isTrue h =>
    change ((Parser.ahead s.skipTrivia.look).1 == some Kind.lparen,
      (Parser.ahead s.skipTrivia.look).2) = _
    rw [ahead_eq, hsecond, hready.skipTrivia, h, Bool.true_and]
  case isFalse h =>
    rw [Bool.eq_false_iff.mpr h, Bool.false_and]
    rfl

/-- Whether a function is called is seen from the tokens. -/
theorem atCall_ahead (text : List Char) (s : State) :
    atCall (s.ahead.map (token text)) = (namesCall s && s.second? == some .lparen) := by
  rw [namesCall, State.next?, State.second?]
  obtain ⟨hahead, hrest⟩ | ⟨l, ls, hrest, hahead⟩ := rest_skipTrivia s
  · rw [hahead]
    rfl
  · rw [hahead, hrest]
    cases ls.filter (!·.isTrivia) with
    | nil => exact (Bool.and_false _).symm
    | cons m ms => rfl

section Grammar

variable {text : List Char} {below : Option Inner} {k : Kind}

theorem callee {β : Type} {f : Bool → Parser β} {Q : List Token → β → List Token → Prop}
    (hyes : ∀ k, Measures text (fun more b rest => atCall (more ++ rest) = true → Q more b rest)
      (.here k) (f true))
    (hno : Measures text (fun more b rest => atCall (more ++ rest) = false → Q more b rest)
      .nothing (f false)) : Measures text Q .nothing (Grammar.atCallee >>= f) := by
  have hglances (s : State) : Glances s (Grammar.atCallee s).2 := by
    rw [atCallee_eq]
    exact (glances_skipTrivia s).trans (glances_look _)
  refine peek (fun s _ => hglances s) fun s _ => ?_
  rw [atCallee_eq]
  dsimp only
  rw [← atCall_ahead text s]
  cases hcall : atCall (s.ahead.map (token text)) with
  | false => exact ⟨.nothing, trivial, hno.mono fun more b rest hQ hmore => hQ (hmore ▸ hcall)⟩
  | true =>
    cases hahead : s.ahead with
    | nil =>
      rw [hahead] at hcall
      cases hcall
    | cons l ls =>
      refine ⟨.here l.kind, here_of_ahead hahead, ?_⟩
      rw [hahead] at hcall
      exact (hyes l.kind).mono fun more b rest hQ hmore => hQ (hmore ▸ hcall)

/-! ## Operands -/

variable (hbelow : ∀ least, Measures text (fun read _ rest => IsExpression least read rest)
  .nothing (expressionFrom below least))
include hbelow

theorem argumentStep : Measures text (fun read goesOn _ =>
    Contained (read.map (·.kind)) ∧ (goesOn = true → read ≠ [])) .nothing
      (Grammar.argumentStep below) := by
  refine bind (hbelow 0) fun read _ => (eat .comma).mono fun more goesOn rest hmore hread => ?_
  refine ⟨?_, fun hgoesOn => ?_⟩
  · rw [List.map_append, hmore]
    refine hread.contained.append ?_
    split
    · exact contained_nil.cons ⟨rfl, rfl⟩
    · exact contained_nil
  · rw [hgoesOn, if_pos rfl] at hmore
    refine List.append_ne_nil_of_right_ne_nil _ fun hnil => ?_
    rw [hnil] at hmore
    cases hmore

theorem parenArguments {sight : Sight} : Measures text (fun read _ _ => Grouped read) sight
    (Grammar.parenArguments below) := by
  rw [parenArguments_eq]
  refine group (Takes.expect_opens _) (after (p := isAt .rparen) glances_current fun _ => ?_)
  refine .ite (fun _ => .pure fun _ => contained_nil) fun _ => ?_
  refine after (p := Parser.atStageEnd) glances_current fun _ => ?_
  refine .ite (fun _ => .pure fun _ => contained_nil) fun _ => ?_
  refine whileTrue (R := fun read _ => Contained (read.map (·.kind))) ?_
  refine (argumentStep hbelow).mono fun read goesOn rest hround => ?_
  obtain ⟨hread, hne⟩ := hround
  cases goesOn with
  | false => exact hread
  | true =>
    refine ⟨hne rfl, fun more left _ (hmore : Contained _) => ?_⟩
    have hboth := hread.append hmore
    rwa [← List.map_append] at hboth

/-- A call: the name, and the group of its arguments. -/
theorem callExpr : Measures text (fun read _ _ => ∃ t ts, read = t :: ts ∧ Grouped ts) (.here k)
    (Grammar.callExpr below) := by
  refine .node _ (.bumpThen rfl fun t _ => ?_)
  exact (node _ (parenArguments hbelow)).mono fun more _ rest h => ⟨t, more, rfl, h⟩

omit hbelow in
/-- An operand that is a single lexeme. -/
theorem single (shape : Shape) : Measures text (fun read _ rest =>
    isAlone k = true → atCall (read ++ rest) = false → IsOperand read rest) (.here k)
      (Parser.single shape) := by
  refine .node _ (Takes.mono (Takes.bump rfl) fun read _ rest hread halone hcall => ?_)
  obtain ⟨l, rfl, rfl, hl⟩ := hread
  rw [tokens_cons hl] at hcall ⊢
  exact isOperand_alone halone hcall

omit hbelow in
/-- What is no operand is noted. -/
theorem noOperand {Q : List Token → Unit → List Token → Prop} (sight : Sight) :
    Measures text Q sight (Parser.atStageEnd >>= fun b =>
      if b = true then Parser.report .expectedExpression
      else currentText >>= fun w => refuseWith .expectedExpression ("found " ++ ticked w)) := by
  refine after (p := Parser.atStageEnd) glances_current fun _ => ?_
  refine .ite (fun _ => Takes.report _) fun _ => ?_
  exact after (p := currentText) glances_skipTrivia fun _ => Takes.refuseWith _ _

/-- An operand without a sign. -/
theorem operand : Measures text (fun read _ rest =>
    (∀ t ∈ (read ++ rest).head?, t.kind ≠ .clause .not) → IsOperand read rest) .nothing
      (Grammar.operand below) := by
  refine callee (fun k => ?_) (ask (noOperand _) fun k => ?_)
  · refine (callExpr hbelow).mono fun read _ rest hread hcall hnot => ?_
    obtain ⟨t, ts, hts, hgroup⟩ := hread
    rw [hts] at hcall hnot ⊢
    exact isOperand_call hgroup hcall (hnot t rfl)
  -- `not` is a word as well, and would be read as a name
  have halone (shape : Shape) (hk : k ≠ .clause .not → isAlone k = true) :
      Measures text (fun more _ rest => Begins k (more ++ rest) → atCall (more ++ rest) = false →
        (∀ t ∈ (more ++ rest).head?, t.kind ≠ .clause .not) → IsOperand more rest) (.here k)
          (Parser.single shape) := by
    refine (single shape).mono fun read _ rest hread hnext hcall hnot => hread (hk ?_) hcall
    obtain ⟨t, ts, hts, rfl⟩ := hnext
    rw [hts] at hnot
    exact hnot t rfl
  split
  · next h =>
    cases h
    have hinside : Measures text (fun read _ _ => Contained (read.map (·.kind))) .nothing
        (expression below) := (hbelow 0).mono fun _ _ _ h => h.contained
    refine .node _ ((group (Takes.bump_opens rfl) hinside).mono ?_)
    exact fun _ _ _ hread _ _ _ => hread.isOperand
  · next h =>
    cases h
    refine peek (p := currentText) (fun s _ => glances_skipTrivia s) fun s hs => ?_
    exact ⟨_, hs.skipTrivia rfl, (halone _ fun _ => rfl).mono fun _ _ _ h _ => h⟩
  iterate 6
    · next h =>
      cases h
      exact halone _ fun _ => rfl
  · exact Takes.report _
  · exact Takes.report _
  · refine .ite (fun hk => halone _ fun hnot => ?_) fun _ => noOperand _
    have hk : k.isWord = true := hk
    cases k with
    | clause w => cases w <;> first | rfl | exact absurd rfl hnot
    | _ => first | rfl | cases hk

/-- An operand with the signs in front of it. -/
theorem signedOperand : Measures text (fun read _ rest => IsOperand read rest) .nothing
    (Grammar.signedOperand below) := by
  refine ask ?_ fun k => ?_
  · refine (operand hbelow).mono fun read _ rest hread hnil => hread ?_
    rw [hnil]
    exact nofun
  have hsigned (hk : isSign k = true) : Measures text
      (fun read _ rest => Begins k (read ++ rest) → IsOperand read rest) (.here k)
        (Parser.node .unaryExpr (Parser.bump >>= fun _ => expressionFrom below signStrength)) := by
    refine .node _ (.bumpThen rfl fun t ht => (hbelow signStrength).blind.mono ?_)
    exact fun more _ rest hmore _ => (hmore.operand (Nat.le_refl _)).sign (ht ▸ hk)
  split
  · next h =>
    cases h
    exact hsigned rfl
  · next h =>
    cases h
    exact hsigned rfl
  · next hnot _ =>
    refine (operand hbelow).blind.mono fun read _ rest hread hnext => hread ?_
    obtain ⟨t, ts, hts, rfl⟩ := hnext
    rw [hts]
    rintro _ ⟨⟩ heq
    exact hnot (congrArg some heq)

/-! ## Operators -/

omit hbelow in
theorem second?_of_tokens {s : State} {t : Token} {ts : List Token}
    (h : s.ahead.map (token text) = t :: ts) : s.second? = ts.head?.map (·.kind) := by
  obtain ⟨l, ls, hahead, -, rfl⟩ := List.map_eq_cons_iff.mp h
  rw [State.second?, hahead]
  cases ls <;> rfl

section Steps

variable {least start : Nat}

omit hbelow in
/-- No operator comes next that may be read. -/
theorem noStep (hk : least = 0 → k.isInfix = false) : Measures text (fun read goesOn rest =>
    Begins k (read ++ rest) → Takes.Round (IsChain least) read goesOn rest) (.here k)
      (Pure.pure false : Parser Bool) := by
  refine .pure fun rest hnext => isChain_stop fun hleast => ?_
  obtain ⟨t, ts, hts, rfl⟩ := hnext
  rw [List.nil_append] at hts
  rw [hts]
  rintro _ ⟨⟩
  exact hk hleast

/-- An operator, and its right operand with the operators which that takes. -/
theorem binaryStep {right : Nat} (hoperator : k.isInfix = true) (hin : k ≠ .clause .inWord)
    (hleast : least < signStrength) : Measures text (Takes.Round (IsChain least)) (.here k)
      (Parser.wrapFrom start .binaryExpr (Parser.bump >>= fun _ => expressionFrom below right)
        >>= fun _ => Pure.pure true) := by
  refine goesOn (.wrapFrom start _ (.bumpThen rfl fun t ht => (hbelow right).blind.mono ?_))
  intro read _ rest hread
  refine ⟨List.cons_ne_nil _ _, fun more left hrest hmore => ?_⟩
  rw [hrest] at hread
  exact hread.after (ht ▸ hoperator) (ht ▸ hin) hleast hmore

/-- The word `in` and a list, if one comes after it. -/
theorem listStep (hleast : least < signStrength) : Measures text (fun read goesOn rest =>
    Begins (.clause .inWord) (read ++ rest) → Takes.Round (IsChain least) read goesOn rest)
      (.here (.clause .inWord)) (isAhead .lparen >>= fun b => if b = true then
        Parser.wrapFrom start .inList (Parser.bump >>= fun _ => Grammar.parenArguments below)
          >>= fun _ => Pure.pure true
        else Pure.pure false) := by
  refine peek (p := isAhead .lparen) (fun s _ => glances_skipTrivia s) fun s hs => ?_
  refine ⟨_, hs.skipTrivia rfl, ?_⟩
  change Measures text _ _ (if ((Parser.ahead s).1 == some Kind.lparen) = true then _ else _)
  rw [ahead_eq]
  refine .ite (fun _ => ?_) fun hlist => .pure fun rest hahead hnext => ?_
  · refine (goesOn (.wrapFrom start _ (.bumpThen rfl fun t ht => ?_))).mono fun _ _ _ h _ _ => h
    refine (parenArguments hbelow).mono fun read _ rest hgroup => ?_
    exact ⟨List.cons_ne_nil _ _, fun more left _ hmore => hgroup.after ht hleast hmore⟩
  · obtain ⟨t, ts, hts, ht⟩ := hnext
    rw [hts] at hahead
    rw [List.nil_append] at hts
    rw [hts]
    refine isChain_in_stop ht fun u hu hopen => hlist ?_
    rw [second?_of_tokens hahead.symm, Option.mem_def.mp hu, Option.map_some, hopen]
    rfl

end Steps

/-- The next operator, with its operand or its list. -/
theorem operatorStep (least start : Nat) : Measures text (Takes.Round (IsChain least)) .nothing
    (Grammar.operatorStep below least start) := by
  refine ask (.pure fun rest (hnil : rest = []) => ?_) fun k => ?_
  · rw [hnil]
    exact isChain_stop fun _ => nofun
  have hoperator := isInfix_eq k
  dsimp only
  cases hstrength : strength? k with
  | none =>
    rw [hstrength] at hoperator
    exact noStep fun _ => hoperator
  | some both =>
    obtain ⟨left, right⟩ := both
    rw [hstrength] at hoperator
    have hbound (h : ¬ left < least) : least < signStrength :=
      Nat.lt_of_le_of_lt (Nat.not_lt.mp h) (strength_lt hstrength)
    -- an operator that holds too weakly is left to the expression around this one
    refine .ite (fun hlt => noStep fun hleast => ?_) fun hle => .ite (fun hin => ?_) fun hin => ?_
    · omega
    · subst hin
      exact listStep hbelow (hbound hle)
    · exact (binaryStep hbelow hoperator hin (hbound hle)).mono fun _ _ _ h _ => h

theorem operators (least : Nat) : Measures text (fun read _ rest => IsExpression least read rest)
    .nothing (Grammar.operators below least) := by
  refine after (p := Parser.mark) glances_eatTrivia fun start => (signedOperand hbelow).bind ?_
  intro read _
  exact (whileTrue (operatorStep hbelow least start)).mono fun more _ rest h h' => h'.chain h

end Grammar

/-- An expression, however deep it may be nested. -/
theorem belowAt (text : List Char) (n least : Nat) :
    Measures text (fun read _ rest => IsExpression least read rest) .nothing
      (expressionFrom (Grammar.belowAt n) least) := by
  induction n generalizing least with
  | zero => exact Takes.descend_none _ _
  | succ n ih =>
    refine Takes.descend _ ?_
    rintro _ ⟨⟩
    exact operators ih least

end Measures

end SplQuery
