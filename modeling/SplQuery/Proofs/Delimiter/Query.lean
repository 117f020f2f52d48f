import SplQuery.Proofs.Delimiter.Paired
import SplQuery.Proofs.Parse

/-!
# Delimiters of a query without diagnostics

A parse reads all lexemes, and each of its productions is paired. So where it notes nothing, the
delimiters of the text pass: the parentheses are nested, and of the brackets only those may stay
open that stand inside a value in parentheses.

* `Grammar.Alike.isPaired` — a production.
* `parseTree_delimiters` — a whole text.
* `parseTree_open_bracket` — a bracket that stays open without a diagnostic.
-/

namespace SplQuery

open Lexeme (delimiters)
open Delimiters State

namespace Grammar

open SplQuery.Parser

/-- What may be nested is paired. -/
structure InnersPaired (below : Option Inner) : Prop where
  nested : ∀ body, Nestable body → Paired .nothing (descend below true body)
  pipeline : Paired .nothing (descend below false (·.pipeline))

theorem InnersPaired.subsearch {below : Option Inner} (h : InnersPaired below) :
    Paired (.here .lbracket) (subsearch below) :=
  .require rfl rfl (.node _ (Paired.enclosed .brackets _ (Takes.bump_opens rfl)
    (.inCommand _ h.pipeline)))

/-- A part with another name is paired if such parts are. -/
theorem paired_aliased {k : Kind} {member : Kind → Bool} {part : Parser Unit}
    (hmember : member .pipe = false)
    (h : ∀ l, l = k ∨ member l = true → Paired (.here l) part) :
    Paired (.here k) (aliased member part) := by
  have hname : Paired .nothing (otherName member part) := by
    refine .ask (f := fun l => if l.any member = true then part else _) ?_ (.reportWith _ _)
      fun l _ => .ite (fun hl => h l (.inr hl)) fun _ => .reportWith _ _
    rw [Option.any_some, hmember]
    rfl
  have hafter (start : Nat) : Paired .nothing (nameAfter start member part) := by
    refine .ask (f := fun l => if (l == some (.clause .as)) = true then _ else _) rfl (.pure _)
      fun l _ => .ite (fun has => .wrapFrom _ _ ?_) fun _ => Paired.pure _
    obtain rfl : l = .clause .as := Option.some.inj (eq_of_beq has)
    exact Paired.bumpThen rfl rfl hname.blind
  exact .peek (fun s _ => glances_eatTrivia s) fun s hs =>
    ⟨.here k, hs.past.past_of_rest rfl, (h k (.inl rfl)).bind fun _ => hafter _⟩

/-- Programs in which delimiters are read in pairs are paired. -/
theorem Alike.isPaired {both : Inners} {paired : Bool} {marks : Option (Nat × Nat)}
    {sight : Sight} {reads : Bool} {α : Type} {p q : Parser α} (hboth : InnersPaired both.left)
    (h : Alike both paired marks sight reads p q) (hpaired : paired = true) : Paired sight p := by
  have hfree {k : Kind} (h : (k.isDelimiter && true) = false) : k.isDelimiter = false := by
    rwa [Bool.and_true] at h
  induction h with
  | blind _ ih => exact (ih hpaired).blind
  | narrow _ ih => exact (ih hpaired).narrow
  | forget _ ih => exact ih hpaired
  | pure a => exact .pure a
  | bind _ _ ih ihf => exact (ih hpaired).bind fun a => ihf a hpaired
  | ask hf _ _ _ ihnone ihsome => exact .ask hf (ihnone hpaired) fun k hk => ihsome k hk hpaired
  | look hsight _ ih => exact .look hsight (ih hpaired)
  | askSecond hf _ _ _ ihnone ihsome =>
    exact .askSecond hf (ihnone hpaired) fun l hl => ihsome l hl hpaired
  | idleSecond hf _ _ ih =>
    exact .peek (fun s _ => glances_skipTrivia s) fun s _ =>
      ⟨.nothing, trivial, hf (Parser.ahead s).1 ▸ ih hpaired⟩
  | text hsight _ ih =>
    exact .peek (fun s _ => glances_skipTrivia s) fun s hs =>
      ⟨_, hs.skipTrivia hsight, ih _ hpaired⟩
  | idleText hf _ _ ih =>
    exact .peek (fun s _ => glances_skipTrivia s) fun s _ =>
      ⟨.nothing, trivial, hf (currentText s).1 ▸ ih hpaired⟩
  | touching hf _ _ ih => exact .touching hf fun k hk => ih k hk hpaired
  | require hsight hmember _ ih => exact .require hsight hmember (ih hpaired)
  | bump hsight hk _ ih =>
    subst hpaired
    exact .bumpThen hsight (hfree hk) (ih rfl)
  | bumpBlindly hk _ ih =>
    subst hpaired
    exact .bumpBlindly (hfree hk) (ih rfl)
  | node _ _ _ ih => exact .node _ (ih hpaired)
  | byRecipe _ _ _ ih => exact .node _ (ih hpaired)
  | searchNode _ _ _ ih => exact .node _ (ih hpaired)
  | mark _ ih =>
    exact .peek (fun s _ => glances_eatTrivia s) fun s hs =>
      ⟨_, hs.past.past_of_rest rfl, ih _ 0 hpaired⟩
  | wrapFrom _ _ _ ih => exact .wrapFrom _ _ (ih hpaired)
  | aliased _ _ hmember _ _ _ ih =>
    exact paired_aliased hmember fun l hl => .node _ (ih l hl hpaired)
  | report kind => exact .report kind
  | reportWith kind detail => exact .reportWith kind detail
  | refuse _ kind => exact .refuse kind
  | refuseWith _ kind detail => exact .refuseWith kind detail
  | recover kind detail => exact .recover kind detail
  | pushOpener => cases hpaired
  | close => cases hpaired
  | grouped hopening _ _ ih _ => exact .enclosed .parens _ (Takes.opening hopening) (ih rfl)
  | balanced => exact .balancedParens
  | inCommand word _ ih => exact .inCommand word (ih hpaired)
  | loop _ _ ihfirst ihothers => exact .loop (ihfirst hpaired) fun a => ihothers a hpaired
  | descend hbody => exact hboth.nested _ hbody
  | subsearch => exact hboth.subsearch

/-! ## Stages -/

section Stages

variable {below : Option Inner}

theorem paired_of_alike {sight : Sight} {reads : Bool} {p : Parser Unit}
    (hbelow : InnersPaired below) (h : Alike (.same below) true none sight reads p p) :
    Paired sight p :=
  h.isPaired hbelow rfl

theorem paired_searchExpr (hbelow : InnersPaired below) (stop : Kind → Bool) {sight : Sight} :
    Paired sight (searchExpr below stop) :=
  Takes.blind (Takes.node _ (paired_of_alike hbelow Alike.searchTerms))

theorem paired_firstStage (hbelow : InnersPaired below) :
    Paired .nothing (firstStage below) := by
  refine .ask rfl (paired_searchExpr hbelow _) fun k _ => ?_
  split
  · next h =>
    cases h
    have hcommand (w : CommandWord) : Paired (.here (.command w)) (command below w) :=
      paired_of_alike hbelow (Alike.command w)
    refine .askSecond rfl (hcommand _) fun l _ => ?_
    exact .ite (fun _ => paired_searchExpr hbelow _) fun _ => (hcommand _).narrow
  · exact paired_searchExpr hbelow _

theorem paired_nextStage (hbelow : InnersPaired below) (nested : Bool) :
    Paired .nothing (nextStage below nested) := by
  refine .peek (fun s _ => glances_current s) fun s _ => ?_
  rw [current_eq]
  cases hnext : s.next? with
  | none => exact ⟨.nothing, trivial, .pure _⟩
  | some k =>
    refine ⟨.here k, (Sight.Holds.here_of_next? hnext).of_rest rfl (look_rest _), ?_⟩
    unfold nextStageAt
    split
    · exact .pure _
    · exact .ite (fun _ => Paired.pure _) fun _ => Paired.bind (.refuse _) fun _ => .pure _
    · next h =>
      cases h
      exact .bumpThen rfl rfl ((paired_of_alike hbelow Alike.stage).bind fun _ => .pure _).blind
    · refine .peek (fun s _ => glances_skipTrivia s) fun s _ => ⟨.nothing, trivial, ?_⟩
      exact (Paired.recover _ _).bind fun _ => .pure _

theorem paired_allStages (hbelow : InnersPaired below) (nested : Bool) :
    Paired .nothing (allStages below nested) := by
  have hstages : Paired .nothing (stages below nested) :=
    .whileTrue (paired_nextStage hbelow nested)
  refine .peek (fun s _ => glances_current s) fun s _ => ⟨.nothing, trivial, ?_⟩
  exact .ite (fun _ => hstages) fun _ => (paired_firstStage hbelow).bind fun _ => hstages

/-! ## Depth -/

theorem innersPaired_belowAt (n : Nat) : InnersPaired (belowAt n) := by
  induction n with
  | zero => exact ⟨fun body _ => .descend_none _ _, .descend_none _ _⟩
  | succ n ih =>
    refine ⟨fun body hbody => .descend _ ?_, .descend _ ?_⟩ <;> rintro _ ⟨⟩
    · cases hbody with
      | searchNot stop => exact paired_of_alike ih Alike.searchNot
      | searchTerms => exact paired_of_alike ih Alike.searchTerms
      | expression least => exact paired_of_alike ih (Alike.operators least)
    · exact .node _ (paired_allStages ih true)

end Stages

end Grammar

namespace Parse

open SplQuery.Parser Grammar

/-- A parse of lexemes that notes nothing has read delimiters that pass. -/
theorem accepted_delimiters {lexemes : List Lexeme} {stop limit : Nat}
    (h : (ofLexemes lexemes stop limit).diagnostics = []) : Accepted (delimiters lexemes) := by
  have heat : Paired .nothing eatTrivia := .glance fun s _ => glances_eatTrivia s
  have hquery : Paired .nothing (do query limit; eatTrivia) :=
    .bind (.node _ (Paired.bind (.node _ (paired_allStages (innersPaired_belowAt limit) false))
      fun _ => heat)) fun _ => heat
  have hreports : (finalState lexemes stop limit).reports = [] := List.reverse_eq_nil_iff.mp h
  obtain ⟨read, hread, htook⟩ :=
    hquery.silent (start lexemes stop) trivial (audible_start lexemes stop) hreports
  obtain ⟨-, hrest, -⟩ := finalState_leads lexemes stop limit
  have hall : lexemes = read ++ (finalState lexemes stop limit).rest := htook.rest
  change (finalState lexemes stop limit).rest = [] at hrest
  rwa [hall, hrest, List.append_nil]

end Parse

/-- **Where a parse notes nothing, the delimiters of the text pass.** The parentheses by themselves
are nested, and all delimiters are if as many brackets are closed as are opened. -/
theorem parseTree_delimiters {text : String} {limit : Nat}
    (h : (parseTree text limit).diagnostics = []) :
    Accepted (delimiters (lex text)) ∧
      Nested ((delimiters (lex text)).filter Kind.isParen) ∧
      (Nested (delimiters (lex text)) ↔
        (delimiters (lex text)).count .lbracket = (delimiters (lex text)).count .rbracket) :=
  have haccepted : Accepted (delimiters (lex text)) := Parse.accepted_delimiters h
  ⟨haccepted, haccepted.nested_parens, haccepted.nested_iff⟩

/-- A query between brackets, groups, and a value with a bracket that stays open. -/
theorem parseTree_delimiters_sample :
    (parseTree "| foo x=([) [search (b)]" 128).diagnostics = [] ∧
      Accepted (delimiters (lex "| foo x=([) [search (b)]")) ∧
      Nested ((delimiters (lex "| foo x=([) [search (b)]")).filter Kind.isParen) ∧
      (Nested (delimiters (lex "| foo x=([) [search (b)]")) ↔
        (delimiters (lex "| foo x=([) [search (b)]")).count .lbracket =
          (delimiters (lex "| foo x=([) [search (b)]")).count .rbracket) :=
  have hclean : (parseTree "| foo x=([) [search (b)]" 128).diagnostics = [] := by decide +kernel
  ⟨hclean, parseTree_delimiters hclean⟩

/-- A bracket that is opened inside a value in parentheses and never closed is not noted. -/
theorem parseTree_open_bracket :
    (parseTree "| foo x=([)" 128).diagnostics = [] ∧
      delimiters (lex "| foo x=([)") = [.lparen, .lbracket, .rparen] ∧
      ¬ Nested (delimiters (lex "| foo x=([)")) := by
  have hdelimiters : delimiters (lex "| foo x=([)") = [.lparen, .lbracket, .rparen] := by
    decide +kernel
  refine ⟨by decide +kernel, hdelimiters, fun h => ?_⟩
  have hcount := h.count_brackets
  rw [hdelimiters] at hcount
  exact absurd hcount (by decide)

end SplQuery
