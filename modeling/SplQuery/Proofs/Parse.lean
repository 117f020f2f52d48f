import SplQuery.Proofs.Steps.Pipeline
import SplQuery.Proofs.Tree.Places

/-!
# Whole parses

What holds of the parse of any text, however deep it may be nested and whatever is wrong with it.

* `parseTree_text` — the tree has all lexemes of the text at its leaves, in order, and its text is
  the text.
* `finalState_healthy` — no step of the parse goes wrong, and the tree is that of a query.
-/

namespace SplQuery

/-! ## From the first step to the last -/

namespace Parse

open SplQuery.Parser State

/-- Before anything is read, nothing has gone wrong. -/
theorem start_sound (text : String) : (start (lex text) text.utf8ByteSize).Sound := by
  have hadjoin : Lexeme.Adjoin 0 (start (lex text) text.utf8ByteSize).rest
      (start (lex text) text.utf8ByteSize).stop := lex_adjoin text
  refine ⟨rfl, Nat.le_refl _, Nat.zero_lt_succ _, ?_, ?_, ?_⟩
  · rw [span_start hadjoin]
    exact hadjoin
  · intro o ho
    cases ho
  · intro d hd
    cases hd

/-- A parse leads from its first state to its last and leaves nothing over: what there is in the
end is one tree. -/
theorem finalState_leads (lexemes : List Lexeme) (stop limit : Nat) :
    Ends (do Grammar.query limit; eatTrivia) (start lexemes stop) fun _ t =>
      Passes 198 (start lexemes stop) t ∧ t.rest = [] ∧ t.held = [] ∧
        ∃ children, t.built = [.node .root children] := by
  refine (Grammar.query_ends limit _).bind fun _ t ⟨ht, hrest, hheld, children, hbuilt⟩ => ?_
  have hdrained : t.skipTrivia.drain.built = t.built := by
    simp only [drain, skipTrivia, hheld, hrest, List.takeWhile_nil, List.append_nil, List.map_nil,
      List.reverse_nil, List.nil_append]
  refine .modify ⟨?_, ?_, rfl, children, ?_⟩
  · exact ht.trans ((passes_skipTrivia t).trans (stays_drain _).passes)
  · simp only [drain, skipTrivia, hrest, List.dropWhile_nil]
  · rw [hdrained, hbuilt]
    rfl

/-- What there is in the end is the tree of the parse. -/
theorem built_finalState (text : String) (limit : Nat) :
    (finalState (lex text) text.utf8ByteSize limit).built = [(parseTree text limit).tree] := by
  obtain ⟨-, -, -, children, hbuilt⟩ := finalState_leads (lex text) text.utf8ByteSize limit
  change (finalState (lex text) text.utf8ByteSize limit).built = _ at hbuilt
  simp only [parseTree, Parse.ofLexemes, hbuilt, List.head?_cons, Option.getD_some]

/-- The tree of a parse has exactly the lexemes at its leaves that were parsed. -/
theorem leaves_ofLexemes (lexemes : List Lexeme) (stop limit : Nat) :
    (ofLexemes lexemes stop limit).tree.leaves = lexemes.map Lexeme.entry := by
  obtain ⟨ht, hrest, hheld, children, hbuilt⟩ := finalState_leads lexemes stop limit
  change (finalState lexemes stop limit).rest = [] at hrest
  change (finalState lexemes stop limit).held = [] at hheld
  change (finalState lexemes stop limit).built = _ at hbuilt
  have hleaves : (finalState lexemes stop limit).leaves = lexemes.map Lexeme.entry :=
    ht.leads.leaves.trans rfl
  rw [State.leaves, hbuilt, hheld, hrest] at hleaves
  simpa [ofLexemes, hbuilt, Tree.leavesOfAll] using hleaves

/-- The text of a tree is the text that was parsed. -/
theorem text_tree (text : String) (limit : Nat) :
    (parseTree text limit).tree.text = text.toList := by
  calc (parseTree text limit).tree.text
      = ((lex text).map Lexeme.entry).flatMap (·.2.toList) := by
        rw [Tree.text_eq_leaves]
        exact congrArg _ (leaves_ofLexemes _ _ _)
    _ = Lexeme.texts (lex text) := List.flatMap_map _ _ _
    _ = text.toList := lex_texts text

/-- In the end nothing has gone wrong. -/
theorem finalState_sound (text : String) (limit : Nat) :
    (finalState (lex text) text.utf8ByteSize limit).Sound := by
  obtain ⟨ht, -⟩ := finalState_leads (lex text) text.utf8ByteSize limit
  have hpatience : 198 < (start (lex text) text.utf8ByteSize).patience := by
    change 198 < fullPatience
    decide
  exact (ht.sound (start_sound text) hpatience).1

end Parse

open State

/-! ## Lossless trees -/

/-- Nothing of a text is lost in its tree, and nothing is moved: the leaves are the lexemes of the
text, trivia and garbage included, each of them once and in order, and together they spell the
text. -/
theorem parseTree_text (text : String) (limit : Nat) :
    (parseTree text limit).tree.leaves = (lex text).map Lexeme.entry ∧
      (parseTree text limit).tree.text = text.toList :=
  ⟨Parse.leaves_ofLexemes _ _ _, Parse.text_tree text limit⟩

/-! ## Nothing goes wrong -/

/-- No step of a parse goes wrong, whatever the text and however few levels there may be: there is
no fault, so that no repetition runs out of rounds, nothing is read past the end and nothing is
taken for what it is not; the patience is never used up; all stretches of text are ordered; and the
tree is that of a query. -/
theorem finalState_healthy (text : String) (limit : Nat) :
    (Parse.finalState (lex text) text.utf8ByteSize limit).fault = none ∧
      0 < (Parse.finalState (lex text) text.utf8ByteSize limit).leastPatience ∧
      (∀ l ∈ lex text, l.span.Ordered) ∧
      (∀ d ∈ (parseTree text limit).diagnostics, d.Ordered) ∧
      ∃ children, (parseTree text limit).tree = .node .root children := by
  obtain ⟨-, -, -, children, hbuilt⟩ :=
    Parse.finalState_leads (lex text) text.utf8ByteSize limit
  change (Parse.finalState (lex text) text.utf8ByteSize limit).built = _ at hbuilt
  have hsound := Parse.finalState_sound text limit
  refine ⟨hsound.fault, hsound.least_pos, fun l _ => l.start_le_stop, fun d hd => ?_, children, ?_⟩
  · exact hsound.reports d (List.mem_reverse.mp hd)
  · simp only [parseTree, Parse.ofLexemes, hbuilt, List.head?_cons, Option.getD_some]

end SplQuery
