import SplQuery.Proofs.Law.Grammar
import SplQuery.Proofs.Made.Notes
import SplQuery.Proofs.Parse

/-!
# What is passed over of a stage

Where a parse passes over the rest of a stage it counts the delimiters that open on the way, and
both kinds of them by one counter, which a closer of either kind takes down. So it ends before the
next pipe unless a bracket or a parenthesis that was opened on the way is still open there, and a
parenthesis without its closer takes the stages after it along.

* `Delimiters.depth` — the counter.
* `Delimiters.StillOpen` — a delimiter that is not closed by its own kind.
* `Delimiters.stillOpen_of_depth` — what the counter says.
* `Delimiters.Guarded` — lexemes among which each pipe comes while the counter is not at zero.
* `Tree.Bounded` — a tree in which nothing more is passed over.
* `State.bounded_law` — every basic step keeps trees bounded.
* `parseTree_bounded` — the tree of a text.
* `parseTree_pipe_swallowed` — a parenthesis that takes the next stage along.
-/

namespace SplQuery

/-! ## Delimiters that are still open -/

namespace Delimiters

/-- How many delimiters are open after some lexemes, of either kind. -/
def depth (ks : List Kind) : Nat := ks.foldl Kind.depthAfter 0

/-- One of the delimiters that open is not closed: after it no more closers come than openers, up to
any place. -/
def StillOpen (opener closer : Kind) (ks : List Kind) : Prop :=
  ∃ before after, ks = before ++ opener :: after ∧
    ∀ some, some <+: after → some.count closer ≤ some.count opener

variable {opener closer : Kind} {ks ls : List Kind}

theorem depth_append_singleton (ks : List Kind) (k : Kind) :
    depth (ks ++ [k]) = k.depthAfter (depth ks) := List.foldl_append

/-- What comes before does not close it. -/
theorem StillOpen.append_left (ls : List Kind) (h : StillOpen opener closer ks) :
    StillOpen opener closer (ls ++ ks) := by
  obtain ⟨before, after, rfl, hafter⟩ := h
  exact ⟨ls ++ before, after, (List.append_assoc _ _ _).symm, hafter⟩

theorem StillOpen.mem (h : StillOpen opener closer ks) : opener ∈ ks := by
  obtain ⟨before, after, rfl, -⟩ := h
  exact List.mem_append_right _ List.mem_cons_self

/-- Where fewer are closed than are opened, one of them is not closed. -/
theorem stillOpen_of_count (hne : closer ≠ opener) (h : ks.count closer < ks.count opener) :
    StillOpen opener closer ks := by
  induction hlength : ks.length using Nat.strong_induction_on generalizing ks with
  | _ n ih =>
    subst hlength
    cases ks with
    | nil => exact absurd h (Nat.lt_irrefl _)
    | cons k ks =>
      by_cases hk : k = opener
      · subst hk
        by_cases hopen : ∀ some, some <+: ks → some.count closer ≤ some.count k
        · exact ⟨[], ks, rfl, hopen⟩
        · -- it is closed at the end of `some`, after which there is one that is not
          push Not at hopen
          obtain ⟨some, ⟨rest, rfl⟩, hclosed⟩ := hopen
          have hrest : rest.count closer < rest.count k := by
            rw [List.count_cons_of_ne hne.symm, List.count_cons_self, List.count_append,
              List.count_append] at h
            omega
          rw [← List.cons_append]
          refine (ih rest.length ?_ hrest rfl).append_left (k :: some)
          rw [List.length_cons, List.length_append]
          omega
      · have hrest : ks.count closer < ks.count opener := by
          rw [List.count_cons_of_ne hk] at h
          exact Nat.lt_of_le_of_lt (List.count_le_count_cons) h
        exact (ih ks.length (Nat.lt_succ_self _) hrest rfl).append_left [k]

/-- What is counted are the delimiters since the counter was last at zero. -/
theorem depth_eq_count (ks : List Kind) : ∃ before after, ks = before ++ after ∧
    depth ks + (after.count .rparen + after.count .rbracket) =
      after.count .lparen + after.count .lbracket := by
  induction ks using List.reverseRecOn with
  | nil => exact ⟨[], [], rfl, rfl⟩
  | append_singleton ks k ih =>
    obtain ⟨before, after, rfl, hcount⟩ := ih
    rw [depth_append_singleton]
    by_cases hzero : k.depthAfter (depth (before ++ after)) = 0
    · exact ⟨before ++ after ++ [k], [], (List.append_nil _).symm, by rw [hzero]; rfl⟩
    · refine ⟨before, after ++ [k], List.append_assoc _ _ _, ?_⟩
      simp only [List.count_append, List.count_singleton]
      cases k <;> simp [Kind.depthAfter] at hzero ⊢ <;> omega

/-- While the counter is not at zero, a bracket or a parenthesis is still open. -/
theorem stillOpen_of_depth (h : 0 < depth ks) :
    StillOpen .lbracket .rbracket ks ∨ StillOpen .lparen .rparen ks := by
  obtain ⟨before, after, rfl, hcount⟩ := depth_eq_count ks
  have hmore : after.count .rbracket < after.count .lbracket ∨
      after.count .rparen < after.count .lparen := by omega
  refine hmore.imp (fun hbracket => ?_) fun hparen => ?_
  · exact (stillOpen_of_count (by decide) hbracket).append_left before
  · exact (stillOpen_of_count (by decide) hparen).append_left before

/-! ## Pipes -/

/-- Each pipe comes while the counter is not at zero. -/
def Guarded (ks : List Kind) : Prop :=
  ∀ before after, ks = before ++ .pipe :: after → 0 < depth before

theorem guarded_nil : Guarded [] := fun before after h => by
  rw [List.nil_eq_append_iff] at h
  cases h.2

/-- A lexeme may follow that is no pipe, or where the counter is not at zero. -/
theorem Guarded.append_singleton {k : Kind} (h : Guarded ks) (hk : k = .pipe → 0 < depth ks) :
    Guarded (ks ++ [k]) := by
  intro before after hsplit
  rcases List.eq_nil_or_concat after with rfl | ⟨after, l, rfl⟩
  · obtain ⟨rfl, hlast⟩ := List.append_inj' hsplit rfl
    exact hk (List.singleton_inj.mp hlast)
  · rw [List.concat_eq_append, ← List.cons_append, ← List.append_assoc] at hsplit
    exact h before after (List.append_inj' hsplit rfl).1

/-- Trivia are not counted. -/
theorem depth_append_trivia (ks : List Kind) (hls : ∀ l ∈ ls, l.isTrivia = true) :
    depth (ks ++ ls) = depth ks := by
  induction ls using List.reverseRecOn with
  | nil => rw [List.append_nil]
  | append_singleton ls l ih =>
    have hl : l.isTrivia = true := hls l (List.mem_append_right _ List.mem_cons_self)
    rw [← List.append_assoc, depth_append_singleton,
      ih fun m hm => hls m (List.mem_append_left _ hm)]
    cases l <;> first | rfl | cases hl

/-- Trivia are no pipes. -/
theorem Guarded.append_trivia (h : Guarded ks) (hls : ∀ l ∈ ls, l.isTrivia = true) :
    Guarded (ks ++ ls) := by
  induction ls using List.reverseRecOn with
  | nil => rwa [List.append_nil]
  | append_singleton ls l ih =>
    have hl : l.isTrivia = true := hls l (List.mem_append_right _ List.mem_cons_self)
    rw [← List.append_assoc]
    refine (ih fun m hm => hls m (List.mem_append_left _ hm)).append_singleton fun hpipe => ?_
    subst hpipe
    cases hl

end Delimiters

/-! ## Nodes of what is passed over -/

open Delimiters State

namespace Tree

/-- The kinds of the lexemes under trees. -/
def kindsOfAll (ts : List Tree) : List Kind := (leavesOfAll ts).map (·.1)

/-- Of each node that a node holds of what was passed over, the pipes are guarded, unless the node
is a query between brackets that lies too deep. -/
def Bounds (_ : Nat) (shape : Shape) (children : List Tree) : Prop :=
  shape ≠ .subsearch → ∀ inside, node .error inside ∈ children → Guarded (kindsOfAll inside)

/-- Every node of the tree, wherever it starts. -/
def Bounded (t : Tree) : Prop := ∀ start, t.Everywhere Bounds start

theorem bounded_leaf (l : Lexeme) : (State.leaf l).Bounded := fun _ => trivial

end Tree

open SplQuery.Tree

namespace State

/-- The trees of the innermost node are bounded, and what of them was passed over is guarded unless
the node is a query between brackets. -/
structure Bounded (loose : Bool) (s : State) : Prop where
  trees : ∀ t ∈ s.built, t.Bounded
  errors : loose = false → ∀ inside, .node .error inside ∈ s.built → Guarded (kindsOfAll inside)

variable {loose inner : Bool} {s t : State} {shape : Shape} {depth : Nat}

theorem Bounded.of_subset (h : s.Bounded loose) (hbuilt : ∀ u ∈ t.built, u ∈ s.built) :
    t.Bounded loose :=
  ⟨fun u hu => h.trees u (hbuilt u hu),
    fun hloose inside hu => h.errors hloose inside (hbuilt _ hu)⟩

theorem Bounded.congr (h : s.Bounded loose) (hbuilt : t.built = s.built) : t.Bounded loose :=
  h.of_subset fun _ hu => hbuilt ▸ hu

/-- Leaves may be put in. -/
theorem Bounded.leaves (h : s.Bounded loose) (ls : List Lexeme)
    (hbuilt : t.built = (ls.map leaf).reverse ++ s.built) : t.Bounded loose := by
  have hleaf {u : Tree} (hu : u ∈ (ls.map leaf).reverse) : ∃ l, leaf l = u :=
    (List.mem_map.mp (List.mem_reverse.mp hu)).imp fun _ hl => hl.2
  refine ⟨fun u hu => ?_, fun hloose inside hu => ?_⟩ <;>
    rcases List.mem_append.mp (hbuilt ▸ hu) with hu | hu
  · obtain ⟨l, rfl⟩ := hleaf hu
    exact bounded_leaf l
  · exact h.trees u hu
  · obtain ⟨l, hl⟩ := hleaf hu
    cases hl
  · exact h.errors hloose inside hu

theorem Bounded.drain (h : s.Bounded loose) : s.drain.Bounded loose := h.leaves s.held rfl

theorem Bounded.bump (h : s.Bounded loose) : s.bump.Bounded loose := by
  cases hrest : s.rest with
  | nil =>
    rw [State.bump, hrest]
    exact h.congr rfl
  | cons l ls =>
    rw [bump_of_cons hrest]
    exact h.drain.leaves [l] rfl

/-- A node is put after what was there. -/
theorem Bounded.closeNode {outer : List Tree} (h : t.Bounded inner)
    (hinner : inner = true → shape = .subsearch)
    (houter : ∀ u ∈ outer, u.Bounded)
    (herrors : loose = false → ∀ inside, .node .error inside ∈ outer → Guarded (kindsOfAll inside))
    (herror : shape = .error → loose = false → Guarded (kindsOfAll t.built.reverse)) :
    (t.closeNode shape outer).Bounded loose := by
  refine ⟨fun u hu => ?_, fun hloose inside hu => ?_⟩ <;> rcases List.mem_cons.mp hu with hu | hu
  · -- what was put in loosely may be unguarded, but then the node is a query between brackets
    rw [hu]
    refine fun start => ⟨fun hshape inside hinside => ?_, everywhereAll_of_forall ?_ start⟩
    · refine h.errors ?_ inside (List.mem_reverse.mp hinside)
      exact Bool.eq_false_iff.mpr fun htrue => hshape (hinner htrue)
    · exact fun v hv => h.trees v (List.mem_reverse.mp hv)
  · exact houter u hu
  · obtain ⟨rfl, rfl⟩ := Tree.node.inj hu
    exact herror rfl hloose
  · exact herrors hloose inside hu

/-! ## Passing over -/

/-- Only lexemes were read since the innermost node was opened, and `depth` delimiters are open.
With `stopAtPipe` each pipe came while there were some. -/
structure Skips (stopAtPipe : Bool) (depth : Nat) (s : State) : Prop where
  held : ∀ l ∈ s.held, l.isTrivia = true
  leaves : ∃ ls : List Lexeme, s.built.reverse = ls.map leaf
  counted : Delimiters.depth (kindsOfAll s.built.reverse) = depth
  guarded : stopAtPipe = true → Guarded (kindsOfAll s.built.reverse)

variable {stopAtPipe : Bool}

theorem Skips.peek (h : s.Skips stopAtPipe depth) : s.skipTrivia.look.Skips stopAtPipe depth := by
  have hbuilt : s.skipTrivia.look.built = s.built := look_built _
  refine ⟨fun l hl => ?_, hbuilt ▸ h.leaves, hbuilt ▸ h.counted, hbuilt ▸ h.guarded⟩
  rw [look_held] at hl
  rcases List.mem_append.mp hl with hl | hl
  · exact h.held l hl
  · exact List.all_eq_true.mp List.all_takeWhile l hl

theorem kindsOfAll_leaves (ls : List Lexeme) : kindsOfAll (ls.map leaf) = ls.map (·.kind) := by
  rw [kindsOfAll, leavesOfAll_map_leaf, List.map_map]
  rfl

/-- A lexeme is read at which skipping does not end. -/
theorem Skips.bump {k : Kind} (h : s.Skips stopAtPipe depth) (hready : s.Ready)
    (hnext : s.next? = some k) (hends : k.endsSkip stopAtPipe depth = false) :
    s.bump.Skips stopAtPipe (k.depthAfter depth) := by
  obtain ⟨l, ls, hrest, rfl, -⟩ := hready.rest_of_next? hnext
  obtain ⟨read, hread⟩ := h.leaves
  have hbuilt : s.bump.built.reverse = (read ++ s.held ++ [l]).map leaf := by
    rw [bump_of_cons hrest]
    change (leaf l :: ((s.held.map leaf).reverse ++ s.built)).reverse = _
    rw [List.reverse_cons, List.reverse_append, List.reverse_reverse, hread, List.map_append,
      List.map_append]
    rfl
  have hkinds : kindsOfAll s.bump.built.reverse =
      kindsOfAll s.built.reverse ++ s.held.map (·.kind) ++ [l.kind] := by
    rw [hbuilt, hread, kindsOfAll_leaves, kindsOfAll_leaves, List.map_append, List.map_append]
    rfl
  have hheld : ∀ k ∈ s.held.map (·.kind), k.isTrivia = true := by
    intro k hk
    obtain ⟨m, hm, rfl⟩ := List.mem_map.mp hk
    exact h.held m hm
  refine ⟨?_, ⟨_, hbuilt⟩, ?_, fun hstop => ?_⟩
  · rw [bump_of_cons hrest]
    exact List.forall_mem_nil _
  · rw [hkinds, depth_append_singleton, depth_append_trivia _ hheld, h.counted]
  · -- a pipe is read on only while something is open
    rw [hkinds]
    refine ((h.guarded hstop).append_trivia hheld).append_singleton fun hpipe => ?_
    rw [depth_append_trivia _ hheld, h.counted]
    subst hstop
    rw [hpipe, Kind.endsSkip, Bool.true_and, beq_eq_false_iff_ne] at hends
    exact Nat.pos_of_ne_zero hends

/-- What has been skipped in the end. -/
theorem Skips.loopFrom (fuel : Nat) (h : s.Skips stopAtPipe depth) :
    ∃ last, State.Skips stopAtPipe last
      (Parser.loopFrom (Parser.skipOne stopAtPipe) fuel depth s).2 := by
  induction fuel generalizing s depth with
  | zero => exact ⟨depth, h.held, h.leaves, h.counted, h.guarded⟩
  | succ fuel ih =>
    have hpeek := h.peek
    cases hnext : s.next? with
    | none =>
      rw [Parser.loopFrom_done (Parser.skipOne_of_none hnext)]
      exact ⟨depth, hpeek⟩
    | some k =>
      have hround : Parser.skipOne stopAtPipe depth s = _ := Parser.skipOne_of_some hnext
      split at hround
      · rw [Parser.loopFrom_done hround]
        exact ⟨depth, hpeek⟩
      · next hends =>
        rw [Parser.loopFrom_yield hround]
        have hhere := Peeked.here (peeked_skipTrivia s).look hnext
        exact ih (hpeek.bump hhere.1 hhere.2 (Bool.not_eq_true _ ▸ hends))

theorem skips_opened (stopAtPipe : Bool) (s : State) :
    ∃ last, State.Skips stopAtPipe last
      (Parser.skipBalanced stopAtPipe (Parser.opened s)).2 :=
  have hopened : (Parser.opened s).Skips stopAtPipe 0 :=
    ⟨List.forall_mem_nil _, ⟨[], rfl⟩, rfl, fun _ => guarded_nil⟩
  hopened.loopFrom ((Parser.opened s).rest.length + 2)

/-! ## Steps -/

theorem Bounded.node (hs : s.Bounded loose) (hshape : shape ≠ .error)
    (hinner : inner = true → shape = .subsearch)
    (h : (Parser.opened s).Bounded inner → t.Bounded inner) :
    (t.closeNode shape s.drain.built).Bounded loose :=
  have hopened : (Parser.opened s).Bounded inner := ⟨nofun, fun _ => nofun⟩
  (h hopened).closeNode hinner hs.drain.trees hs.drain.errors fun herror => absurd herror hshape

theorem Bounded.wrap {mark : Nat} (hs : s.Bounded false) (hshape : shape ≠ .error)
    (h : (Parser.cut mark s).Bounded false → t.Bounded false) :
    (t.closeNode shape (s.built.drop (Parser.sinceMark mark s))).Bounded false := by
  have hcut : (Parser.cut mark s).Bounded false := hs.of_subset fun _ => List.mem_of_mem_take
  refine (h hcut).closeNode nofun (fun u hu => ?_) (fun hloose inside hu => ?_)
    fun herror => absurd herror hshape
  · exact hs.trees u (List.mem_of_mem_drop hu)
  · exact hs.errors hloose inside (List.mem_of_mem_drop hu)

/-- What was passed over is a node of lexemes, of which the pipes are guarded unless this is a query
between brackets. -/
theorem Bounded.closeError {ls : List Lexeme} (hs : s.Bounded loose)
    (hleaves : t.built.reverse = ls.map leaf)
    (hguarded : loose = false → Guarded (kindsOfAll t.built.reverse)) :
    (t.closeNode .error s.drain.built).Bounded loose := by
  have hinner : t.Bounded false := by
    have hempty : { t with built := [] }.Bounded false := ⟨nofun, fun _ => nofun⟩
    refine hempty.leaves ls ?_
    rw [List.append_nil, ← hleaves, List.reverse_reverse]
  exact hinner.closeNode nofun hs.drain.trees hs.drain.errors fun _ => hguarded

theorem Bounded.refused {k : Kind} (hs : s.Bounded loose) (hready : s.Ready)
    (hnext : s.next? = some k) (hk : k ≠ .pipe) : (Parser.single .error s).2.Bounded loose := by
  obtain ⟨l, ls, hrest, rfl, -⟩ := hready.rest_of_next? hnext
  have hopened : (Parser.opened s).rest = l :: ls := hrest
  have hbuilt : (Parser.opened s).bump.built.reverse = [l].map leaf := by
    rw [bump_of_cons hopened]
    rfl
  refine hs.closeError (t := (Parser.opened s).bump) hbuilt fun _ => ?_
  rw [hbuilt, kindsOfAll_leaves]
  exact guarded_nil.append_singleton (k := l.kind) fun hpipe => absurd hpipe hk

theorem Bounded.skipped (stopAtPipe : Bool) (hs : s.Bounded (!stopAtPipe)) :
    (Parser.node .error (Parser.skipBalanced stopAtPipe) s).2.Bounded (!stopAtPipe) := by
  obtain ⟨last, hskips⟩ := skips_opened stopAtPipe s
  obtain ⟨ls, hleaves⟩ := hskips.leaves
  exact hs.closeError hleaves fun hloose => hskips.guarded (by simpa using hloose)

/-- Every basic step keeps trees bounded. -/
theorem bounded_law : Law false fun loose s t => s.Bounded loose → t.Bounded loose where
  trans h h' hs := h' (h hs)
  idle _ hbuilt _ _ _ hs := hs.congr hbuilt
  skipTrivia _ _ hs := hs.congr rfl
  drain _ _ hs := hs.drain
  bump _ _ hs := hs.bump
  node _ hshape hinner h hs := hs.node hshape.ne_error hinner h
  wrap hshape h hs := hs.wrap hshape.ne_error h
  byRecipe _ := nofun
  told _ _ _ _ hs := hs.congr rfl
  opener _ _ _ hs := hs.congr rfl
  closed _ _ hs := hs.congr rfl
  unclosed _ _ _ hs := hs.congr rfl
  entered _ _ _ hs := hs.congr rfl
  left _ _ hs := hs.congr rfl
  refused _ hready hnext hk hs := hs.refused hready hnext hk
  skipped stopAtPipe _ hs := hs.skipped stopAtPipe

end State

/-! ## Whole trees -/

/-- The tree of a text is bounded. -/
theorem bounded_parseTree (text : String) (limit : Nat) : (parseTree text limit).tree.Bounded := by
  have hstart : (start (lex text) text.utf8ByteSize).Bounded false := ⟨nofun, fun _ => nofun⟩
  have hfinal : State.Bounded false (Parse.finalState (lex text) text.utf8ByteSize limit) :=
    Parse.finalState_law bounded_law (lex text) text.utf8ByteSize limit hstart
  refine hfinal.trees _ ?_
  rw [Parse.built_finalState]
  exact List.mem_singleton_self _

/-- What was passed over directly under a node. -/
theorem Tree.error_of_mem_nodesOf {e : Placed} {shape : Shape} {children : List Tree} {start : Nat}
    (he : e ∈ ((node shape children).place start).nodesOf .error) :
    ∃ inside, node .error inside ∈ children ∧ e.leaves = leavesOfAll inside := by
  obtain ⟨hmem, hshape⟩ := List.mem_filter.mp he
  obtain ⟨pre, t, post, rfl, rfl⟩ := mem_placeAll hmem
  cases t with
  | leaf kind text => cases hshape
  | node shape' inside =>
    obtain rfl : shape' = .error := Option.some.inj (eq_of_beq hshape)
    exact ⟨inside, List.mem_append_right _ List.mem_cons_self, leaves_place (node .error inside) _⟩

/-- **A stage that is passed over ends before the next pipe**, whatever the text and however few
levels there may be, unless a bracket or a parenthesis that was opened on the way is not closed
there. Only what is nested too deep between brackets is passed over as a whole. -/
theorem parseTree_bounded (text : String) (limit : Nat) :
    ∀ n ∈ ((parseTree text limit).tree.place 0).nodes, n.isNode .subsearch = false →
      ∀ e ∈ n.nodesOf .error, ∀ before after, e.leaves.map (·.1) = before ++ .pipe :: after →
        StillOpen .lbracket .rbracket before ∨ StillOpen .lparen .rparen before := by
  intro n hn hshape e he before after hpipe
  have hall : EverywhereAll Bounds 0 [(parseTree text limit).tree] :=
    ⟨bounded_parseTree text limit 0, trivial⟩
  obtain ⟨start, shape, children, rfl, hbounds⟩ :=
    hall.of_mem_nodes (List.mem_append_left (Placed.nodesOfAll []) hn)
  obtain ⟨inside, hinside, hleaves⟩ := Tree.error_of_mem_nodesOf he
  have hne : shape ≠ .subsearch := fun h => by
    rw [h] at hshape
    cases hshape
  rw [hleaves] at hpipe
  exact stillOpen_of_depth (hbounds hne inside hinside before after hpipe)

/-- In a text where a parenthesis is never closed a stage is passed over with the next one. -/
theorem exists_passed_pipe :
    ∃ n ∈ ((parseTree "| head 1 a ( | head 2" 128).tree.place 0).nodes,
      n.isNode .subsearch = false ∧ ∃ e ∈ n.nodesOf .error,
        e.leaves.map (·.1) = [.identifier, .whitespace, .lparen, .whitespace] ++ .pipe ::
          [.whitespace, .command .head, .whitespace, .numberLiteral] := by
  have hpassed : ((((parseTree "| head 1 a ( | head 2" 128).tree.place 0).nodes.filter
      (·.isNode .subsearch == false)).flatMap (·.nodesOf .error)).map (·.leaves.map (·.1)) =
        [[.identifier, .whitespace, .lparen, .whitespace] ++ .pipe ::
          [.whitespace, .command .head, .whitespace, .numberLiteral]] := by decide +kernel
  obtain ⟨e, he, hleaves⟩ : ∃ e, e ∈ _ ∧ _ = _ := List.mem_map.mp (hpassed ▸ List.mem_cons_self)
  obtain ⟨n, hn, he⟩ := List.mem_flatMap.mp he
  obtain ⟨hn, hshape⟩ := List.mem_filter.mp hn
  exact ⟨n, hn, eq_of_beq hshape, e, he, hleaves⟩

/-- The parenthesis is still open before the pipe. -/
theorem parseTree_bounded_sample :
    ∃ n ∈ ((parseTree "| head 1 a ( | head 2" 128).tree.place 0).nodes,
      n.isNode .subsearch = false ∧ ∃ e ∈ n.nodesOf .error, ∃ before after,
        e.leaves.map (·.1) = before ++ .pipe :: after ∧
          (StillOpen .lbracket .rbracket before ∨ StillOpen .lparen .rparen before) := by
  obtain ⟨n, hn, hshape, e, he, hleaves⟩ := exists_passed_pipe
  exact ⟨n, hn, hshape, e, he, _, _, hleaves, parseTree_bounded _ _ n hn hshape e he _ _ hleaves⟩

/-- A parenthesis that is never closed takes the next stage along, and no bracket is open there. -/
theorem parseTree_pipe_swallowed :
    ¬ ∀ (text : String) (limit : Nat),
      ∀ n ∈ ((parseTree text limit).tree.place 0).nodes, n.isNode .subsearch = false →
        ∀ e ∈ n.nodesOf .error, ∀ before after, e.leaves.map (·.1) = before ++ .pipe :: after →
          StillOpen .lbracket .rbracket before := by
  intro h
  obtain ⟨n, hn, hshape, e, he, hleaves⟩ := exists_passed_pipe
  have hopen := h _ _ n hn hshape e he _ _ hleaves
  exact absurd hopen.mem (by decide)

end SplQuery
