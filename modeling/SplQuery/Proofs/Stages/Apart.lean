import SplQuery.Proofs.Lexeme.Pipes
import SplQuery.Proofs.Parse
import SplQuery.Proofs.Query.Shifted
import SplQuery.Proofs.Stages.Upto
import SplQuery.Query.Parse

/-!
# Stages are parsed apart

A query may be cut at a pipe before which there are no brackets and parentheses are balanced in
every stage. However malformed the stages are, they are parsed as in a query of their own: the
stages before the pipe as if the query ended there, those after it as if it began there.

* `Parse.anywhere` — the coupling of two queries with the same lexemes in different places.
* `parseQuery_at_pipe` — the stages of a query, from those of the two parts of it.
-/

namespace SplQuery

open State

/-! ## The same lexemes in another place -/

namespace Parse

section Entries

variable {a b : List Lexeme}

/-- The same lexemes in other places start in the same way. -/
theorem ahead_of_entries (h : a.map Lexeme.entry = b.map Lexeme.entry) (depth : Nat) :
    Ahead (fun _ a b => a.map Lexeme.entry = b.map Lexeme.entry) depth a b := by
  cases a with
  | nil =>
    obtain rfl : b = [] := List.map_eq_nil_iff.mp h.symm
    exact .ended
  | cons l a =>
    cases b with
    | nil => cases h
    | cons m b =>
      obtain ⟨hentry, hrest⟩ := List.cons.inj h
      exact .lexeme hentry hrest

theorem touching_of_entries (h : a.map Lexeme.entry = b.map Lexeme.entry) :
    a.head?.any (!·.isTrivia) = b.head?.any (!·.isTrivia) := by
  have hhead : a.head?.map Lexeme.entry = b.head?.map Lexeme.entry := by
    rw [← List.head?_map, h, List.head?_map]
  have htrivia (ls : List Lexeme) : ls.head?.any (!·.isTrivia) =
      (ls.head?.map Lexeme.entry).any (!·.1.isTrivia) := by
    cases ls <;> rfl
  rw [htrivia, hhead, ← htrivia]

theorem blindly_of_entries {l m : Lexeme}
    (h : (l :: a).map Lexeme.entry = (m :: b).map Lexeme.entry)
    (hl : l.isTrivia = true) (hm : m.isTrivia = true) : [leaf l] = [leaf m] ∧
      (a.takeWhile Lexeme.isTrivia).map leaf = (b.takeWhile Lexeme.isTrivia).map leaf := by
  have hskipped := (Upto.trivia_of_entries h).1
  rw [List.takeWhile_cons_of_pos hl, List.takeWhile_cons_of_pos hm, List.map_cons,
    List.map_cons] at hskipped
  obtain ⟨hleaf, hrest⟩ := List.cons.inj hskipped
  exact ⟨congrArg (fun t => [t]) hleaf, hrest⟩

end Entries

/-- Two parses side by side of the same lexemes. -/
def anywhere : Coupling :=
  coupledTrees (fun _ a b => a.map Lexeme.entry = b.map Lexeme.entry) id
    (fun h => (Upto.trivia_of_entries h).2) (fun h => (Upto.trivia_of_entries h).1)
    (fun h _ _ => ahead_of_entries h _) (fun h _ => touching_of_entries h) blindly_of_entries

theorem tight_anywhere : anywhere.Tight :=
  fun _ _ h _ => List.map_eq_nil_iff.mp h

end Parse

/-! ## Trees of whole queries -/

namespace Parse

open SplQuery.Parser

/-- The tree of a parse: the stages, and the trivia after them. -/
theorem tree_ofLexemes (lexemes : List Lexeme) (stop limit : Nat) :
    (ofLexemes lexemes stop limit).tree = .node .root (.node .pipeline
      (Grammar.allStages (Grammar.belowAt limit) false (start lexemes stop)).2.built.reverse ::
        (Grammar.allStages (Grammar.belowAt limit) false
          (start lexemes stop)).2.skipTrivia.held.map leaf) := by
  generalize hs : (Grammar.allStages (Grammar.belowAt limit) false (start lexemes stop)).2 = s
  have hready : ((s.closeNode .pipeline []).skipTrivia.drain.closeNode .root []).Ready :=
    ready_skipTrivia s
  have hbuilt : (finalState lexemes stop limit).built = [.node .root (.node .pipeline
      s.built.reverse :: s.skipTrivia.held.map leaf)] := by
    rw [finalState_eq, hs, hready.skipTrivia]
    change [Tree.node .root ((s.skipTrivia.held.map leaf).reverse ++
      [Tree.node .pipeline s.built.reverse]).reverse] = _
    rw [List.reverse_append, List.reverse_reverse]
    rfl
  rw [ofLexemes, hbuilt]
  rfl

end Parse

/-! ## Stages of trees -/

namespace Tree

/-- The stages among trees that are placed one after another. -/
def stagesFrom (start : Nat) (ts : List Tree) : List Stage :=
  (Placed.partsOfAll (placeAll start ts)).filterMap (·.stage?)

theorem stagesFrom_append (start : Nat) (ts us : List Tree) :
    stagesFrom start (ts ++ us) = stagesFrom start ts ++ stagesFrom (start + widthAll ts) us := by
  rw [stagesFrom, placeAll_append, Placed.partsOfAll_eq_map, List.map_append, List.filterMap_append,
    ← Placed.partsOfAll_eq_map, ← Placed.partsOfAll_eq_map]
  rfl

theorem stagesFrom_leaves (start : Nat) (ls : List Lexeme) :
    stagesFrom start (ls.map State.leaf) = [] := by
  induction ls generalizing start with
  | nil => rfl
  | cons l ls ih => exact ih _

/-- Stages further on. -/
theorem stagesFrom_add (start n : Nat) (ts : List Tree) :
    stagesFrom (start + n) ts = (stagesFrom start ts).map (Stage.relocate (·.shift n)) := by
  rw [stagesFrom, placeAll_add, Placed.partsOfAll_shift]
  simp [stagesFrom, List.filterMap_map, List.map_filterMap]

/-- The stages of a whole query. -/
theorem stages_pipeline (ts us : List Tree) :
    ((Tree.node .root (.node .pipeline ts :: us)).place 0).pipeline.stages = stagesFrom 0 ts := by
  have hpipeline : ((Tree.node .pipeline ts).place 0).meaning =
      .pipeline (.mk (stagesFrom 0 ts) ((Tree.node .pipeline ts).place 0).core) := by
    rw [place, Placed.ofChildren, Placed.meaning]
    rfl
  have hroot : ((Tree.node .root (.node .pipeline ts :: us)).place 0).meaning =
      .pipeline (.mk (stagesFrom 0 ts) ((Tree.node .pipeline ts).place 0).core) := by
    rw [← hpipeline]
    rfl
  rw [Placed.pipeline, hroot]
  rfl

end Tree

/-! ## From a pipe on -/

namespace Grammar

open SplQuery.Parser

/-- Trivia that is held back may be put into the tree before the next lexeme is read. -/
theorem bump_drain (s : State) (h : s.rest ≠ []) : s.drain.bump = s.bump := by
  obtain ⟨l, ls, hrest⟩ := List.exists_cons_of_ne_nil h
  rw [bump_of_cons hrest, bump_of_cons (s := s.drain) hrest]
  rfl

theorem drain_look (s : State) : s.look.drain.built = s.drain.built := by
  unfold State.look
  split <;> rfl

theorem firstStages_of_pipe {below : Option Inner} {s : State} (h : s.next? = some .pipe) :
    (firstStages below s).2 = s.skipTrivia.look := by
  change ((fun r : Option Kind × State => (if r.1.all _ = true then (Pure.pure () : Parser Unit)
    else firstStage below) r.2) (current s)).2 = _
  rw [current_eq, h]
  rfl

/-- From a pipe on, the same is read in two queries that have the same lexemes from there. -/
theorem stageRounds_anywhere (limit : Nat) {s t : State} {fuel fuel' : Nat}
    (hs : s.next? = some .pipe) (ht : t.next? = some .pipe)
    (hrest : s.skipTrivia.rest.map Lexeme.entry = t.skipTrivia.rest.map Lexeme.entry)
    (hfault : (stageRounds (belowAt limit) false fuel s).fault = none)
    (hfault' : (stageRounds (belowAt limit) false fuel' t).fault = none) :
    ∃ new, (stageRounds (belowAt limit) false fuel s).built = new ++ s.skipTrivia.look.drain.built ∧
      (stageRounds (belowAt limit) false fuel' t).built = new ++ t.skipTrivia.look.drain.built := by
  have htight := Parse.tight_anywhere
  have hfaults := innerKeepsFaults_belowAt limit
  obtain ⟨hnested, hsubsearch⟩ := couples_belowAt htight limit
  cases fuel with
  | zero => exact absurd hfault (fault_withFault s .stuck)
  | succ fuel =>
    cases fuel' with
    | zero => exact absurd hfault' (fault_withFault t .stuck)
    | succ fuel' =>
      rw [stageRounds_of_next hs, nextStage_of_pipe hs] at hfault ⊢
      rw [stageRounds_of_next ht, nextStage_of_pipe ht] at hfault' ⊢
      have hhere {u : State} (hu : u.next? = some .pipe) :
          (Sight.here .pipe).Holds u.skipTrivia.look.drain :=
        (Sight.Holds.here_of_next? hu).of_rest rfl (look_rest _)
      have hcons {u : State} (hu : u.next? = some .pipe) : u.skipTrivia.look.rest ≠ [] :=
        rest_ne_nil_of_next? (hhere hu).2
      -- the trivia before the pipe is left aside
      have hdrained : Twin Parse.anywhere 0 s.skipTrivia.look.drain.built
          t.skipTrivia.look.drain.built s.skipTrivia.look.drain t.skipTrivia.look.drain := by
        refine ⟨⟨[], [], rfl, rfl, rfl⟩, rfl, ?_, trivial⟩
        change s.skipTrivia.look.rest.map _ = t.skipTrivia.look.rest.map _
        rw [look_rest, look_rest, hrest]
      have hpipe := hdrained.bumpHere (hhere hs) (hhere ht)
      rw [bump_drain _ (hcons hs), bump_drain _ (hcons ht)] at hpipe
      have hstage : Coupled Parse.anywhere none .nothing (stage (belowAt limit))
          (stage (belowAt limit)) := coupled_stage hfaults hnested hsubsearch
      have hafter := (hstage (fun _ _ hnone => by cases hnone) hpipe trivial trivial
        (keepsFaults_stageRounds hfaults hfault) (keepsFaults_stageRounds hfaults hfault')).2
      have hnext : Coupled Parse.anywhere none .nothing
          (roundOf (nextStage (belowAt limit) false) ())
          (roundOf (nextStage (belowAt limit) false) ()) :=
        .bind (coupled_nextStage htight hfaults hnested hsubsearch false) (fun _ => .pure _)
          (fun _ => .pure _) fun _ => .pure _
      have hkeeps (_ : Unit) : KeepsFaults (roundOf (nextStage (belowAt limit) false) ()) :=
        (keepsFaults_nextStage hfaults false).bind fun _ => .pure _
      obtain ⟨new, new', hnew, hnew', hsame⟩ :=
        (Coupled.loopFrom (fun _ => hnext) hkeeps hkeeps fuel fuel' () hnext
          (fun _ _ hnone => by cases hnone) hafter trivial trivial hfault hfault').2.built
      obtain rfl : new = new' := List.reverse_injective hsame
      exact ⟨new, hnew, hnew'⟩

end Grammar

/-! ## Cutting a query at a pipe -/

section Cut

open SplQuery.Parser Grammar

/-- The trees of a query that is cut at a pipe: those of its two parts, with the trivia in front of
the pipe between them. -/
theorem Parse.built_at_pipe {xs ys zs : List Lexeme} {p : Lexeme} {stop stop' stop'' limit : Nat}
    (hpipe : p.kind = .pipe) (hflat : ∀ l ∈ xs, l.kind ≠ .lbracket ∧ l.kind ≠ .rbracket)
    (hclosed : Lexeme.Closed 0 xs) (hzs : zs.map Lexeme.entry = (p :: ys).map Lexeme.entry)
    (hfault : (finalState (xs ++ p :: ys) stop limit).fault = none)
    (hfault' : (finalState xs stop' limit).fault = none)
    (hfault'' : (finalState zs stop'' limit).fault = none) :
    (allStages (belowAt limit) false (start (xs ++ p :: ys) stop)).2.built.reverse =
      (allStages (belowAt limit) false (start xs stop')).2.built.reverse ++
        (allStages (belowAt limit) false (start xs stop')).2.skipTrivia.held.map leaf ++
        (allStages (belowAt limit) false (start zs stop'')).2.built.reverse := by
  have htail : ∀ l ∈ (p :: ys).head?, l.kind = .pipe := by
    rintro l ⟨⟩
    exact hpipe
  have hfaults := innerKeepsFaults_belowAt limit
  have hsubsearch (n : Nat) : CouplesSubsearch (Parse.upto (p :: ys) htail) (belowAt n) :=
    couplesSubsearch_upto
  have hstart : Twin (Parse.upto (p :: ys) htail) 0 [] [] (start (xs ++ p :: ys) stop)
      (start xs stop') :=
    ⟨⟨[], [], rfl, rfl, rfl⟩, rfl, ⟨⟨xs, rfl, rfl⟩, hflat, 0, Nat.le_refl 0, hclosed⟩, trivial⟩
  obtain ⟨fuel, u, hrounds, htwin, hend⟩ := allStages_upto hfaults
    (couplesNested_belowAt hsubsearch limit) (hsubsearch limit) hstart (fault_allStages hfault)
    (fault_allStages hfault')
  -- where the first part ends, the pipe is ahead, and the same trees have been put together
  have hupto : Upto (p :: ys) 0 u.skipTrivia.look.rest _ := htwin.rest
  obtain ⟨r, hr, hentries⟩ := hupto.same
  rw [hend] at hentries
  obtain rfl : r = [] := List.map_eq_nil_iff.mp hentries
  rw [look_rest, List.nil_append] at hr
  have hnext : u.next? = some .pipe := by
    rw [← next?_skipTrivia, (ready_skipTrivia u).next?_of_cons hr, hpipe]
  obtain ⟨new, new', hnew, hnew', hsame⟩ := htwin.built
  obtain rfl : new = new' := List.reverse_injective hsame
  have hheld : u.skipTrivia.look.held.map leaf = _ := htwin.held
  have hdrained : u.skipTrivia.look.drain.built.reverse =
      (allStages (belowAt limit) false (start xs stop')).2.built.reverse ++
        (allStages (belowAt limit) false (start xs stop')).2.held.map leaf := by
    change ((u.skipTrivia.look.held.map leaf).reverse ++ u.skipTrivia.look.built).reverse = _
    rw [List.reverse_append, List.reverse_reverse, hheld, hnew, hnew']
    rfl
  have hreadyEnd : (allStages (belowAt limit) false (start xs stop')).2.Ready := by
    intro l hl
    rw [hend] at hl
    cases hl
  -- the second part begins with the pipe
  obtain ⟨l, ls, rfl⟩ : ∃ l ls, zs = l :: ls := by
    cases zs with
    | nil => cases hzs
    | cons l ls => exact ⟨l, ls, rfl⟩
  have hl : l.kind = .pipe := (Prod.mk.inj (List.cons.inj hzs).1).1.trans hpipe
  have hready : (start (l :: ls) stop'').Ready := by
    rintro m ⟨⟩
    rw [Lexeme.isTrivia, hl]
    rfl
  have hstartNext : (start (l :: ls) stop'').next? = some .pipe := by
    rw [hready.next?_of_cons rfl, hl]
  have hreadyLook : (start (l :: ls) stop'').look.Ready := hready.of_rest (look_rest _)
  have hlookNext : (start (l :: ls) stop'').look.next? = some .pipe :=
    (next?_of_rest (look_rest _)).trans hstartNext
  have hall : (allStages (belowAt limit) false (start (l :: ls) stop'')).2 =
      stageRounds (belowAt limit) false ((start (l :: ls) stop'').look.rest.length + 2)
        (start (l :: ls) stop'').look := by
    rw [allStages_eq, firstStages_of_pipe hstartNext, hready.skipTrivia]
  have hfaultRounds := fault_allStages hfault
  have hfaultRounds' := fault_allStages hfault''
  rw [hrounds] at hfaultRounds ⊢
  rw [hall] at hfaultRounds' ⊢
  obtain ⟨both, hboth, hboth'⟩ := stageRounds_anywhere limit hnext hlookNext
    (by rw [hr, hreadyLook.skipTrivia, look_rest]; exact hzs.symm) hfaultRounds hfaultRounds'
  have hnothing : (start (l :: ls) stop'').look.skipTrivia.look.drain.built = [] := by
    rw [hreadyLook.skipTrivia, drain_look, drain_look]
    rfl
  rw [hboth, hboth', hnothing, List.append_nil, List.reverse_append, hdrained, hreadyEnd.skipTrivia]

open Lexeme

/-- The stages of a query are those among the trees of its pipeline. -/
theorem stages_parseQuery (text : String) (limit : Nat) :
    (parseQuery text limit).query.stages = Tree.stagesFrom 0
      (allStages (belowAt limit) false (start (lex text) text.utf8ByteSize)).2.built.reverse := by
  change ((Parse.ofLexemes (lex text) text.utf8ByteSize limit).tree.place 0).pipeline.stages = _
  rw [Parse.tree_ofLexemes, Tree.stages_pipeline]

/-- The trees of the pipeline and the trivia after them have as many bytes as the text. -/
theorem widthAll_parseQuery (text : String) (limit : Nat) :
    Tree.widthAll
      ((allStages (belowAt limit) false (start (lex text) text.utf8ByteSize)).2.built.reverse ++
        (allStages (belowAt limit) false
          (start (lex text) text.utf8ByteSize)).2.skipTrivia.held.map leaf) =
      text.utf8ByteSize := by
  have htext := Parse.text_tree text limit
  change (Parse.ofLexemes (lex text) text.utf8ByteSize limit).tree.text = _ at htext
  have hwidth := congrArg Text.width htext
  rw [Parse.tree_ofLexemes] at hwidth
  change Tree.width _ = _ at hwidth
  rw [Tree.width_node, Tree.widthAll_cons, Tree.width_node, ← Text.utf8ByteSize_eq_width] at hwidth
  rw [Tree.widthAll_append, hwidth]

/-- Stages are parsed apart. If there is a pipe in a query before which there are no brackets, and
parentheses are balanced between the pipes before it, then its stages are those of the query that
ends there followed by those of the query that begins there, the latter further on by the length of
the former. Whatever else may be wrong with a stage, it does not change how others are parsed. -/
theorem parseQuery_at_pipe (text : String) (limit : Nat) {xs ys : List Lexeme} {p : Lexeme}
    (hlex : lex text = xs ++ p :: ys) (hpipe : p.kind = .pipe)
    (hflat : ∀ l ∈ xs, l.kind ≠ .lbracket ∧ l.kind ≠ .rbracket)
    (hbalanced : ∀ part ∈ xs.splitOnP (·.kind == .pipe), closes 0 part = true) :
    (parseQuery text limit).query.stages = (parseQuery (textOf xs) limit).query.stages ++
      (parseQuery ("|" ++ textOf ys) limit).query.stages.map
        (Stage.relocate (·.shift (textOf xs).utf8ByteSize)) := by
  have hclosed : Closed 0 xs := by
    obtain ⟨first, others, hsplit⟩ := List.exists_cons_of_ne_nil
      (List.splitOnP_ne_nil (·.kind == .pipe) xs)
    rw [hsplit] at hbalanced
    obtain ⟨hfirst, hothers⟩ := List.forall_mem_cons.mp hbalanced
    exact closed_of_splitOnP hsplit hfirst hothers
  have hbefore : lex (textOf xs) = xs := lex_before_pipe hlex hpipe
  have hfault := (Parse.finalState_sound text limit).fault
  have hfault' := (Parse.finalState_sound (textOf xs) limit).fault
  have hfault'' := (Parse.finalState_sound ("|" ++ textOf ys) limit).fault
  have hwidth := widthAll_parseQuery (textOf xs) limit
  rw [hlex] at hfault
  rw [hbefore] at hfault' hwidth
  rw [stages_parseQuery, stages_parseQuery, stages_parseQuery, hlex, hbefore,
    Parse.built_at_pipe hpipe hflat hclosed (lex_from_pipe hlex hpipe) hfault hfault' hfault'',
    Tree.stagesFrom_append, hwidth, Tree.stagesFrom_append, Tree.stagesFrom_leaves, List.append_nil,
    Tree.stagesFrom_add]

/-- What comes before the last pipe of `a|eval (=)|head`, in which something is missing. -/
def sampleFront : List Lexeme :=
  [⟨.identifier, 0, "a"⟩, ⟨.pipe, 1, "|"⟩, ⟨.command .eval, 2, "eval"⟩, ⟨.whitespace, 6, " "⟩,
    ⟨.lparen, 7, "("⟩, ⟨.equals, 8, "="⟩, ⟨.rparen, 9, ")"⟩]

/-- An assignment without a target does not keep the stage after it from being parsed. -/
theorem parseQuery_at_pipe_sample :
    lex "a|eval (=)|head" = sampleFront ++ ⟨.pipe, 10, "|"⟩ :: [⟨.command .head, 11, "head"⟩] ∧
      (parseQuery "a|eval (=)|head" 3).query.stages =
        (parseQuery (textOf sampleFront) 3).query.stages ++
          (parseQuery ("|" ++ textOf [⟨.command .head, 11, "head"⟩]) 3).query.stages.map
            (Stage.relocate (·.shift (textOf sampleFront).utf8ByteSize)) := by
  have hlex : lex "a|eval (=)|head" =
      sampleFront ++ ⟨.pipe, 10, "|"⟩ :: [⟨.command .head, 11, "head"⟩] := by
    decide +kernel
  exact ⟨hlex, parseQuery_at_pipe "a|eval (=)|head" 3 hlex rfl (by decide) (by decide)⟩

end Cut

end SplQuery
