import SplQuery.Proofs.Extent.Expression

/-!
# The grammar and the patterns measure alike

Completion counts how many tokens of a stage a field, a value or an expression takes. The grammar
reads as many of them, from wherever it starts.

* `State.StandsAt` — a step is about to start at a token of a stage.
* `Parse.standsAt_startAt` — a parse may be started at any token of a text.
* `extent_eq_read` — what is counted and what is read end at the same token.
-/

namespace SplQuery

open Lexeme

namespace State

/-- How many tokens of a text have been passed. -/
def tokenIndex (text : String) (s : State) : Nat := (tokenize text).tokens.length - s.ahead.length

/-- A step is about to start at a token of a text, with these tokens to the end of the stage.
Nothing has been noted of what is to come, as a step may leave out what it finds wrong where
something is noted already. -/
structure StandsAt (text : String) (stage : List Token) (s : State) : Prop where
  place : s.rest <:+ lex text
  /-- no trivia comes before the token -/
  ready : s.Ready
  audible : s.Audible
  /-- the stage ends before a pipe, before a bracket that closes, or with the text -/
  stage : ∃ after, (tokenize text).tokens.drop (s.tokenIndex text) = stage ++ after ∧
    ∀ t ∈ after.head?, t.kind.endsStage = true

variable {text : String} {stage : List Token} {s t : State} {read : List Lexeme}

theorem tokenIndex_eq {passed : List Token}
    (h : (tokenize text).tokens = passed ++ tokens text.toList s.rest) :
    s.tokenIndex text = passed.length := by
  have hahead : s.ahead.length = (tokens text.toList s.rest).length := (List.length_map _).symm
  rw [tokenIndex, h, hahead, List.length_append, Nat.add_sub_cancel]

/-- The tokens of a text are those passed and those to come. -/
theorem exists_passed (h : s.rest <:+ lex text) :
    ∃ passed, (tokenize text).tokens = passed ++ tokens text.toList s.rest := by
  obtain ⟨passed, hpassed⟩ := h
  exact ⟨tokens text.toList passed, by rw [tokens_tokenize, ← hpassed, tokens_append]⟩

/-- What is read without a token that ends the stage is a part of the stage. -/
theorem StandsAt.stage_eq (h : s.StandsAt text stage) (htook : s.Took read t)
    (hinside : ∀ k ∈ kinds read, k.endsStage = false) :
    ∃ left, stage = tokens text.toList read ++ left ∧ left <+: tokens text.toList t.rest := by
  obtain ⟨passed, hpassed⟩ := exists_passed h.place
  obtain ⟨after, hstage, hafter⟩ := h.stage
  rw [tokenIndex_eq hpassed, hpassed, List.drop_left, htook.rest, tokens_append] at hstage
  obtain ⟨left, rfl, hleft⟩ | ⟨more, hread, rfl⟩ := List.append_eq_append_iff.mp hstage
  · exact ⟨left, rfl, after, hleft.symm⟩
  · cases more with
    | nil =>
      rw [List.append_nil] at hread
      exact ⟨[], by rw [List.append_nil, hread], List.nil_prefix⟩
    | cons u more =>
      -- the token after the stage would have been read
      have hu : u ∈ tokens text.toList read := by
        rw [hread]
        exact List.mem_append_right _ List.mem_cons_self
      have hkind := hinside u.kind (kinds_tokens read ▸ List.mem_map_of_mem hu)
      rw [hafter u rfl] at hkind
      cases hkind

/-- If the step notes nothing, it ends at the token at which what it reads is counted to end. -/
def EndsAsCounted (text : String) (stage : List Token) (count : List Token → Option Nat)
    (p : Parser Unit) (s : State) : Prop :=
  (p s).2.reports = s.reports →
    (count stage).map (s.tokenIndex text + ·) = some ((p s).2.tokenIndex text)

/-- What is read is counted, if that does not depend on what comes after it in the stage. -/
theorem StandsAt.endsAsCounted {sight : Sight} {p : Parser Unit} {count : List Token → Option Nat}
    (h : s.StandsAt text stage) (hp : Takes (fun read _ rest =>
      Adjoining (read ++ rest) → (∀ k ∈ kinds read, k.endsStage = false) ∧
        ∀ left, left <+: tokens text.toList rest →
          count (tokens text.toList read ++ left) = some (tokens text.toList read).length) sight p)
    (hsight : sight.Holds s) : s.EndsAsCounted text stage count p := by
  intro hsilent
  obtain ⟨read, hread, htook⟩ := hp.silent s hsight h.audible hsilent
  obtain ⟨hinside, hcount⟩ := hread (htook.rest ▸ (adjoining_lex text).of_suffix h.place)
  obtain ⟨left, rfl, hleft⟩ := h.stage_eq htook hinside
  obtain ⟨passed, hpassed⟩ := exists_passed h.place
  have hpassed' : (tokenize text).tokens =
      (passed ++ tokens text.toList read) ++ tokens text.toList (p s).2.rest := by
    rw [hpassed, htook.rest, tokens_append, List.append_assoc]
  rw [hcount left hleft, tokenIndex_eq hpassed, tokenIndex_eq hpassed', Option.map_some,
    List.length_append]

end State

namespace Parse

/-- The start of a parse at one of the lexemes of a text. -/
def startAt (text : String) (n : Nat) : State :=
  State.start ((lex text).drop n) text.utf8ByteSize

/-- The tokens from one of the lexemes of a text to the end of the stage. -/
def stageAt (text : String) (n : Nat) : List Token :=
  ((tokenize text).tokens.drop ((startAt text n).tokenIndex text)).takeWhile (!·.kind.endsStage)

/-- A parse may be started at any token of a text. -/
theorem standsAt_startAt {text : String} {n : Nat}
    (hn : ∀ l ∈ (lex text)[n]?, l.isTrivia = false) :
    (startAt text n).StandsAt text (stageAt text n) := by
  refine ⟨List.drop_suffix _ _, fun l hl => hn l ?_, State.audible_start _ _, _,
    List.takeWhile_append_dropWhile.symm, fun t ht => ?_⟩
  · rw [← List.head?_drop]
    exact hl
  · have hend := List.head?_dropWhile_not (fun t : Token => !t.kind.endsStage)
      ((tokenize text).tokens.drop ((startAt text n).tokenIndex text))
    rw [Option.mem_def.mp ht] at hend
    simpa using hend

end Parse

open State Grammar Extent

/-- **The grammar and the patterns measure alike.** A step that reads a field, a value or an
expression ends, if it notes nothing, at the token at which the field, value or expression is
counted to end among the tokens of the stage. -/
theorem extent_eq_read {text : String} {stage : List Token} {s : State} (limit : Nat)
    (h : s.StandsAt text stage) :
    (s.next?.any Kind.startsField = true → s.EndsAsCounted text stage field? fieldItem) ∧
      (s.next?.any (fun k => k == .lparen || k.isGlue) = true →
        s.EndsAsCounted text stage value? gluedRun) ∧
      s.EndsAsCounted text stage expression? (expression (belowAt limit)) := by
  refine ⟨fun hstarts => ?_, fun hstarts => ?_, ?_⟩
  · obtain ⟨k, hnext, hk⟩ := Option.any_eq_true _ _ |>.mp hstarts
    refine h.endsAsCounted (Takes.fieldItem.mono ?_) ⟨h.ready, hnext⟩
    rintro _ _ rest ⟨l, run, rfl, rfl, hl, hrun⟩ hadjoin
    exact ⟨inside_of_run hk hrun, fun _ => field?_read hadjoin hl hk hrun⟩
  · obtain ⟨k, hnext, hk⟩ := Option.any_eq_true _ _ |>.mp hstarts
    have hk : k = .lparen ∨ k.isGlue = true := by simpa using hk
    refine h.endsAsCounted ((Takes.gluedRun hk).mono ?_) ⟨h.ready, hnext⟩
    rintro read _ rest ⟨hne, hread⟩ hadjoin
    exact ⟨inside_of_glued hread.1, fun _ => value?_read hadjoin hne hread⟩
  · refine h.endsAsCounted (Takes.mono (Measures.belowAt text.toList limit 0) ?_) trivial
    rintro read _ rest hread -
    refine ⟨kinds_tokens read ▸ hread.contained.inside, fun left hleft => ?_⟩
    rw [hread.count left hleft, hread.ends rfl left hleft, Nat.add_zero]

/-- Inside a bracket a field, a value and an expression start at the same token, and each of them
ends at a token of its own. -/
theorem extent_eq_read_sample :
    (Parse.startAt "[b-f(x) in (1)]" 1).StandsAt "[b-f(x) in (1)]"
        (Parse.stageAt "[b-f(x) in (1)]" 1) ∧
      (field? (Parse.stageAt "[b-f(x) in (1)]" 1)).map (1 + ·) = some 4 ∧
      (value? (Parse.stageAt "[b-f(x) in (1)]" 1)).map (1 + ·) = some 7 ∧
      (expression? (Parse.stageAt "[b-f(x) in (1)]" 1)).map (1 + ·) = some 11 := by
  -- all in one, so that the text is split only once
  have hrun : (∀ l ∈ (lex "[b-f(x) in (1)]")[1]?, l.isTrivia = false) ∧
      (Parse.startAt "[b-f(x) in (1)]" 1).next? = some .identifier ∧
      ((fieldItem (Parse.startAt "[b-f(x) in (1)]" 1)).2.reports = [] ∧
        (gluedRun (Parse.startAt "[b-f(x) in (1)]" 1)).2.reports = [] ∧
        (expression (belowAt 128) (Parse.startAt "[b-f(x) in (1)]" 1)).2.reports = []) ∧
      (Parse.startAt "[b-f(x) in (1)]" 1).tokenIndex "[b-f(x) in (1)]" = 1 ∧
      (fieldItem (Parse.startAt "[b-f(x) in (1)]" 1)).2.tokenIndex "[b-f(x) in (1)]" = 4 ∧
      (gluedRun (Parse.startAt "[b-f(x) in (1)]" 1)).2.tokenIndex "[b-f(x) in (1)]" = 7 ∧
      (expression (belowAt 128) (Parse.startAt "[b-f(x) in (1)]" 1)).2.tokenIndex
        "[b-f(x) in (1)]" = 11 := by
    decide +kernel
  obtain ⟨htoken, hnext, ⟨hfield, hvalue, hexpression⟩, hindices⟩ := hrun
  have hstands := Parse.standsAt_startAt htoken
  have hcounted := extent_eq_read 128 hstands
  rw [hnext] at hcounted
  simp only [EndsAsCounted, hindices] at hcounted
  obtain ⟨hfields, hvalues, hexpressions⟩ := hcounted
  exact ⟨hstands, hfields rfl hfield, hvalues rfl hvalue, hexpressions hexpression⟩

end SplQuery
