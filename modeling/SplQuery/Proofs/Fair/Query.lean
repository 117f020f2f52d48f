import SplQuery.Proofs.Fair.Pipeline
import SplQuery.Proofs.Parse
import SplQuery.Proofs.Stages.Apart

/-!
# Nothing is passed over in silence

The tree of every text is fair, however deep it may be nested. So a parse without diagnostics has
passed over nothing, and each of the pipes in it stands before a stage; and what a parse has passed
over was reported, unless the limit on nesting was.

* `parseTree_fair` — all nodes under the root are fair.
* `parseTree_accounts` — what this says of diagnostics.
-/

namespace SplQuery

open SplQuery.Tree State

/-! ## Whole trees -/

/-- Before anything is read there is nothing that is not fair. -/
theorem Parse.start_fair (text : String) : (start (lex text) text.utf8ByteSize).Fair false 0 :=
  ⟨trivial, nofun, nofun, lex_adjoin text, fun l hl => Lexeme.start_lt_stop (lex_ne_nil text l hl),
    nofun, nofun⟩

/-- All nodes under the root of the tree of a text are fair. -/
theorem parseTree_fair (text : String) (limit : Nat) :
    ∃ ts, (parseTree text limit).tree = .node .root ts ∧
      EverywhereAll (Tree.Fair (parseTree text limit).diagnostics) 0 ts := by
  have hpipeline := Grammar.kept_pipeline (Grammar.innersKeep_belowAt limit)
    (Grammar.fits_belowAt limit) false (Parse.start_fair text) nofun
  have hinside := hpipeline.fair.skipTrivia.drain
  generalize ht : (Grammar.pipeline (Grammar.belowAt limit) false
    (start (lex text) text.utf8ByteSize)).2.skipTrivia.drain = t at hinside
  have hfinal : Parse.finalState (lex text) text.utf8ByteSize limit =
      (t.closeNode .root []).skipTrivia.drain := by
    rw [← ht]
    rfl
  obtain ⟨-, -, -, children, hbuilt⟩ := Parse.finalState_leads (lex text) text.utf8ByteSize limit
  change (Parse.finalState (lex text) text.utf8ByteSize limit).built = _ at hbuilt
  have htree : (parseTree text limit).tree = .node .root children := by
    simp only [parseTree, Parse.ofLexemes, hbuilt, List.head?_cons, Option.getD_some]
  have hchildren : children = t.built.reverse := by
    rw [hfinal] at hbuilt
    change (_ : List Tree) ++ [.node .root t.built.reverse] = [] ++ [.node .root children] at hbuilt
    exact (Tree.node.inj (List.singleton_inj.mp (List.append_inj' hbuilt rfl).2)).2.symm
  refine ⟨children, htree, ?_⟩
  rw [hchildren]
  refine hinside.trees.mono fun _ _ _ hfair => hfair.mono fun d hd => ?_
  change d ∈ (Parse.finalState (lex text) text.utf8ByteSize limit).reports.reverse
  rw [List.mem_reverse, hfinal]
  exact hd

/-! ## Stages and pipes -/

theorem Tree.length_stagesFrom (start : Nat) (ts : List Tree) :
    (stagesFrom start ts).length = ts.countP isStage := by
  induction ts generalizing start with
  | nil => rfl
  | cons t ts ih =>
    have hone : (stagesFrom start [t]).length = [t].countP isStage := by
      rw [← Nat.zero_add start, stagesFrom_add, List.length_map, List.countP_singleton, isStage]
      change ([Part.mk (t.place 0) (t.place 0).meaning].filterMap (·.stage?)).length = _
      rw [List.filterMap_cons, List.filterMap_nil]
      cases (Part.mk (t.place 0) (t.place 0).meaning).stage? <;> rfl
    rw [← List.singleton_append, stagesFrom_append, List.length_append, hone, ih,
      List.countP_append]

theorem Tree.length_pipes (start : Nat) (ts : List Tree) :
    (((placeAll start ts).filterMap Placed.lexeme?).filter (·.kind == .pipe)).length =
      ts.countP isPipe := by
  induction ts generalizing start with
  | nil => rfl
  | cons t ts ih =>
    have hone : (((t.place start).lexeme?.toList).filter (·.kind == .pipe)).length =
        [t].countP isPipe := by
      rw [List.countP_singleton]
      cases t with
      | node shape children => rfl
      | leaf kind text =>
        by_cases hpipe : kind = .pipe
        · subst hpipe
          rfl
        · rw [place, Placed.lexeme?, isPipe, if_neg fun h => hpipe (eq_of_beq h)]
          split
          · rfl
          · rw [Option.toList_some, List.filter_cons_of_neg (p := fun l : Lexeme => l.kind == .pipe)
              fun h => hpipe (eq_of_beq h)]
            rfl
    rw [placeAll, List.filterMap_cons, ← List.singleton_append (x := t), List.countP_append, ← hone,
      ← ih (t.place start).span.stop]
    cases (t.place start).lexeme? with
    | none => exact (Nat.zero_add _).symm
    | some l => rw [Option.toList_some, ← List.length_append, ← List.filter_append]; rfl

/-- The lexemes under a placed tree that are no trivia are those under the tree. -/
theorem Tree.entries_tokens (t : Tree) (start : Nat) :
    (t.place start).tokens.map (·.lexeme?.map Lexeme.entry) =
      (t.leaves.filter (!·.1.isTrivia)).map some := by
  induction t using Tree.rec (motive_2 := fun ts => ∀ start,
    (Placed.tokensOfAll (placeAll start ts)).map (·.lexeme?.map Lexeme.entry) =
      ((leavesOfAll ts).filter (!·.1.isTrivia)).map some) generalizing start with
  | leaf kind text =>
    rw [place, Placed.tokens, leaves]
    cases hkind : kind.isTrivia with
    | true =>
      rw [if_pos rfl, List.filter_cons_of_neg (by rw [hkind]; exact Bool.false_ne_true)]
      rfl
    | false =>
      rw [if_neg Bool.false_ne_true, List.filter_cons_of_pos (by rw [hkind]; rfl),
        List.map_singleton, Placed.lexeme?, hkind]
      rfl
  | node shape children ih => exact ih start
  | nil => rfl
  | cons t ts iht ihts =>
    rename_i start
    rw [placeAll, Placed.tokensOfAll, leavesOfAll, List.map_append, List.filter_append,
      List.map_append, iht, ihts]

/-- Whether the first lexeme under a placed node is other than a pipe. -/
theorem Tree.leading_eq (shape : Shape) (children : List Tree) (start : Nat) :
    leading children =
      if ((((node shape children).place start).tokens.head?.bind Placed.lexeme?).any
        (·.kind != .pipe)) = true then 1 else 0 := by
  have hfirst := congrArg List.head? (entries_tokens (node shape children) start)
  rw [List.head?_map, List.head?_map, List.head?_filter] at hfirst
  have hleading : leading children =
      if ((node shape children).leaves.find? (!·.1.isTrivia)).any (·.1 != .pipe)
        then 1 else 0 := rfl
  rw [hleading]
  cases hhead : ((node shape children).place start).tokens.head? with
  | none =>
    rw [hhead, eq_comm, Option.map_none, Option.map_eq_none_iff] at hfirst
    rw [hfirst]
    rfl
  | some p =>
    rw [hhead, Option.map_some, eq_comm, Option.map_eq_some_iff] at hfirst
    obtain ⟨entry, hentry, hlexeme⟩ := hfirst
    obtain ⟨l, hl, rfl⟩ := Option.map_eq_some_iff.mp hlexeme.symm
    rw [hentry, Option.bind_some, hl]
    rfl

/-- The root is a node, and all others are under it and fair. -/
theorem mem_nodes_parseTree {text : String} {limit : Nat} {n : Placed}
    (hn : n ∈ ((parseTree text limit).tree.place 0).nodes) :
    n.isNode .root = true ∨ ∃ start shape children, n = (node shape children).place start ∧
      Tree.Fair (parseTree text limit).diagnostics start shape children := by
  obtain ⟨ts, htree, hfair⟩ := parseTree_fair text limit
  rw [htree, Tree.place, Placed.ofChildren, Placed.nodes, List.mem_cons] at hn
  rcases hn with rfl | hn
  · exact .inl rfl
  · exact .inr (hfair.of_mem_nodes hn)

theorem Placed.shape_of_isNode {shape : Shape} {p : Placed} (h : p.isNode shape = true) :
    p.shape? = some shape := eq_of_beq h

/-! ## What is reported -/

/-- **Nothing is passed over in silence**, whatever the text and however few levels there may be. A
tree without a diagnostic has no `error` node, and each of its queries has one stage for each pipe,
and one more if it begins with something other than a pipe. And where an `error` node begins with a
lexeme, the place of that lexeme was reported, or it was reported that the limit was reached. -/
theorem parseTree_accounts (text : String) (limit : Nat) :
    ((parseTree text limit).diagnostics = [] →
      ∀ n ∈ ((parseTree text limit).tree.place 0).nodes,
        n.isNode .error = false ∧
        (n.isNode .pipeline = true →
          n.pipeline.stages.length = (n.lexemes.filter (·.kind == .pipe)).length +
            if (n.tokens.head?.bind Placed.lexeme?).any (·.kind != .pipe) then 1 else 0)) ∧
    ∀ n ∈ ((parseTree text limit).tree.place 0).nodes, n.isNode .error = true →
      ∀ first ∈ n.tokens.head?, ∃ d ∈ (parseTree text limit).diagnostics,
        d.kind = .recursionLimitExceeded ∨
          d.span.start ≤ first.span.start ∧ first.span.start < d.span.stop := by
  refine ⟨fun hnone n hn => ?_, fun n hn herror first hfirst => ?_⟩
  · rcases mem_nodes_parseTree hn with hroot | ⟨start, shape, children, rfl, hfair⟩
    · rw [Placed.isNode, Placed.isNode, Placed.shape_of_isNode hroot]
      exact ⟨rfl, fun hshape => by cases hshape⟩
    · refine ⟨beq_eq_false_iff_ne.mpr fun hshape => ?_, fun hshape => ?_⟩
      · exact (hfair.told (Option.some.inj hshape)).1 hnone
      · obtain rfl : shape = .pipeline := Option.some.inj (eq_of_beq hshape)
        have hstages : ((node .pipeline children).place start).pipeline.stages =
            stagesFrom start children := rfl
        rw [hstages, length_stagesFrom, hfair.balanced rfl hnone,
          leading_eq .pipeline children start, ← length_pipes start]
        rfl
  · rcases mem_nodes_parseTree hn with hroot | ⟨start, shape, children, rfl, hfair⟩
    · rw [Placed.isNode, Placed.shape_of_isNode hroot] at herror
      cases herror
    · obtain rfl : shape = .error := Option.some.inj (eq_of_beq herror)
      have hcore := start_core?_place (node .error children) start
      rw [Option.mem_def.mp hfirst, Option.map_some, Option.map_eq_some_iff] at hcore
      obtain ⟨c, hc, hstart⟩ := hcore
      rw [← hstart]
      exact (hfair.told rfl).2 c hc

end SplQuery
