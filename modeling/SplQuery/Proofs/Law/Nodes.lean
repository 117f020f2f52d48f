import SplQuery.Proofs.Recovery.Query

/-!
# What holds of every node

Some shapes of nodes are made in one way only. What is true of a node that is made in this way, of
what it holds and of the lexemes that follow on it, is true of every node of this shape in a tree:
what a node holds does not change once it is closed, and neither do the lexemes that follow on it,
since none is lost or moved.

* `Tree.Followed` — what holds of every node of a tree and of what follows on it.
* `Tree.Followed.of_mem_nodes` — the nodes of a placed tree, and where they stand.
* `State.followed_law` — every basic step keeps it.
* `parseTree_followed` — the tree of a text.
-/

namespace SplQuery

open State

namespace Tree

section Followed

variable (P : List (Kind × String) → Shape → List Tree → Prop)

mutual

/-- `P` holds of every node of a tree: of the lexemes that follow on the node, of its shape and of
its children. -/
def Followed (after : List (Kind × String)) : Tree → Prop
  | .leaf _ _ => True
  | .node shape children => P after shape children ∧ FollowedAll after children

/-- `P` holds of every node of trees that stand one after another. -/
def FollowedAll (after : List (Kind × String)) : List Tree → Prop
  | [] => True
  | t :: ts => t.Followed (leavesOfAll ts ++ after) ∧ FollowedAll after ts

end

variable {P} {after : List (Kind × String)}

theorem followedAll_append {ts us : List Tree} :
    FollowedAll P after (ts ++ us) ↔
      FollowedAll P (leavesOfAll us ++ after) ts ∧ FollowedAll P after us := by
  induction ts with
  | nil => exact ⟨fun h => ⟨trivial, h⟩, And.right⟩
  | cons t ts ih =>
    rw [List.cons_append, FollowedAll, FollowedAll, ih, leavesOfAll_append, List.append_assoc,
      and_assoc]

theorem followedAll_leaves (ls : List Lexeme) : FollowedAll P after (ls.map State.leaf) := by
  induction ls with
  | nil => trivial
  | cons l ls ih => exact ⟨trivial, ih⟩

/-- A node of a placed tree stands behind some of the lexemes of the tree and in front of others. -/
structure Found (P : List (Kind × String) → Shape → List Tree → Prop)
    (all after : List (Kind × String)) (start : Nat) (n : Placed) (before : List (Kind × String))
    (shape : Shape) (children : List Tree) (behind : List (Kind × String)) : Prop where
  leaves : all = before ++ (leavesOfAll children ++ behind)
  placed : n = (Tree.node shape children).place (start + Text.width (before.flatMap (·.2.toList)))
  holds : P (behind ++ after) shape children

/-- What holds of every node of a tree holds of the nodes of the placed tree. -/
theorem Followed.of_mem_nodes {t : Tree} {start : Nat} {n : Placed} (h : t.Followed P after)
    (hn : n ∈ (t.place start).nodes) :
    ∃ before shape children behind,
      Found P t.leaves after start n before shape children behind := by
  induction t using Tree.rec (motive_2 := fun ts => ∀ start after, FollowedAll P after ts →
    n ∈ Placed.nodesOfAll (placeAll start ts) → ∃ before shape children behind,
      Found P (leavesOfAll ts) after start n before shape children behind)
    generalizing start after with
  | leaf kind text => cases hn
  | node shape children ih =>
    rcases List.mem_cons.mp hn with rfl | hn
    · exact ⟨[], shape, children, [], (List.append_nil _).symm, rfl, h.1⟩
    · exact ih start after h.2 hn
  | nil =>
    rename_i hn
    cases hn
  | cons t ts iht ihts =>
    rename_i start after h hn
    rcases List.mem_append.mp hn with hn | hn
    · obtain ⟨before, shape, children, behind, hleaves, hplaced, hholds⟩ := iht h.1 hn
      refine ⟨before, shape, children, behind ++ leavesOfAll ts, ?_, hplaced, ?_⟩
      · rw [leavesOfAll, hleaves, List.append_assoc, List.append_assoc]
      · rw [List.append_assoc]
        exact hholds
    · obtain ⟨before, shape, children, behind, hleaves, hplaced, hholds⟩ := ihts _ _ h.2 hn
      refine ⟨t.leaves ++ before, shape, children, behind, ?_, ?_, hholds⟩
      · rw [leavesOfAll, hleaves, List.append_assoc]
      · rw [hplaced, span_place, List.flatMap_append, Text.width_append, ← text_eq_leaves,
          ← Nat.add_assoc]
        rfl

end Followed

end Tree

open SplQuery.Tree

namespace State

open SplQuery.Parser (opened cut sinceMark)

/-- The lexemes that follow on what has been put into the tree. -/
def afterwards (s : State) : List (Kind × String) := (s.held ++ s.rest).map Lexeme.entry

variable {P : List (Kind × String) → Shape → List Tree → Prop} {s t u : State} {shape : Shape}

variable (P) in
/-- `P` holds of every node in the trees of the innermost node. -/
def Followed (s : State) : Prop := FollowedAll P s.afterwards s.built.reverse

theorem leaves_eq (s : State) : s.leaves = leavesOfAll s.built.reverse ++ s.afterwards := rfl

variable (P) in
/-- No lexeme is lost or moved, and what holds of the nodes so far holds of all nodes after it. -/
structure KeepsNodes (s t : State) : Prop where
  leaves : t.leaves = s.leaves
  followed : s.Followed P → t.Followed P

namespace KeepsNodes

theorem trans (h : KeepsNodes P s t) (h' : KeepsNodes P t u) : KeepsNodes P s u :=
  ⟨h'.leaves.trans h.leaves, h'.followed ∘ h.followed⟩

/-- Lexemes may be put in. -/
theorem ofLeaves (ls : List Lexeme) (hbuilt : t.built = (ls.map leaf).reverse ++ s.built)
    (hafter : s.held ++ s.rest = ls ++ (t.held ++ t.rest)) : KeepsNodes P s t := by
  have hreverse : t.built.reverse = s.built.reverse ++ ls.map leaf := by
    rw [hbuilt, List.reverse_append, List.reverse_reverse]
  have hafter : s.afterwards = leavesOfAll (ls.map leaf) ++ t.afterwards := by
    rw [afterwards, hafter, List.map_append, leavesOfAll_map_leaf, afterwards]
  refine ⟨?_, fun hs => ?_⟩
  · rw [leaves_eq, leaves_eq, hreverse, leavesOfAll_append, hafter, List.append_assoc]
  · rw [Followed, hreverse, followedAll_append, ← hafter]
    exact ⟨hs, followedAll_leaves ls⟩

/-- Neither trees nor lexemes change. -/
theorem idle (hbuilt : t.built = s.built) (hafter : s.held ++ s.rest = t.held ++ t.rest) :
    KeepsNodes P s t := ofLeaves [] hbuilt hafter

theorem drain (s : State) : KeepsNodes P s s.drain := ofLeaves s.held rfl rfl

theorem bump (s : State) : KeepsNodes P s s.bump := by
  cases hrest : s.rest with
  | nil =>
    rw [State.bump, hrest]
    exact idle rfl rfl
  | cons l ls =>
    rw [bump_of_cons hrest]
    refine ofLeaves (s.held ++ [l]) ?_ ?_
    · rw [List.map_append, List.reverse_append]
      rfl
    · rw [hrest, List.append_assoc]
      rfl

/-- The trees that have been put in since are closed into a node, if that may hold them. -/
theorem close {outer : List Tree} (hbuilt : s.built = t.built ++ outer)
    (hafter : t.afterwards = s.afterwards) (h : KeepsNodes P t u)
    (hholds : P u.afterwards shape u.built.reverse) : KeepsNodes P s (u.closeNode shape outer) := by
  have hreverse : s.built.reverse = outer.reverse ++ t.built.reverse := by
    rw [hbuilt, List.reverse_append]
  have hclosed : (u.closeNode shape outer).built.reverse =
      outer.reverse ++ [.node shape u.built.reverse] := List.reverse_cons
  -- what follows on the outer trees is what is in the node and what follows on it
  have hnode : leavesOfAll [.node shape u.built.reverse] ++ u.afterwards = t.leaves := by
    rw [← h.leaves, leaves_eq, leavesOfAll, Tree.leaves, leavesOfAll, List.append_nil]
  refine ⟨?_, fun hs => ?_⟩
  · rw [leaves_eq, hclosed, leavesOfAll_append, List.append_assoc, leaves_eq, hreverse,
      leavesOfAll_append, List.append_assoc, ← hafter, ← leaves_eq, ← hnode]
    rfl
  · rw [Followed, hreverse, followedAll_append, ← hafter, ← leaves_eq] at hs
    rw [Followed, hclosed, followedAll_append]
    refine ⟨?_, ⟨hholds, h.followed hs.2⟩, trivial⟩
    change FollowedAll P (leavesOfAll [.node shape u.built.reverse] ++ u.afterwards) outer.reverse
    rw [hnode]
    exact hs.1

/-- A node is closed. -/
theorem node (h : KeepsNodes P (opened s) t) (hholds : P t.afterwards shape t.built.reverse) :
    KeepsNodes P s (t.closeNode shape s.drain.built) :=
  (drain s).trans (close (t := opened s) rfl rfl h hholds)

end KeepsNodes

/-- `P` holds of what is made by the recipe for a shape, and of any node of other shapes. -/
structure Made (P : List (Kind × String) → Shape → List Tree → Prop) : Prop where
  other : ∀ shape, Grammar.recipe? shape = none → ∀ after children, P after shape children
  recipe : ∀ (s : State) shape recipe (sight : Sight), Grammar.recipe? shape = some recipe →
    recipe.starts sight = true → sight.Holds s →
      P (recipe.body (opened s)).2.afterwards shape (recipe.body (opened s)).2.built.reverse

/-- Every basic step keeps what holds of nodes that are made as they are. -/
theorem followed_law (hmade : Made P) : Law true fun _ => KeepsNodes P where
  trans := .trans
  idle _ hbuilt hheld hrest _ := .idle hbuilt (by rw [hheld, hrest])
  skipTrivia _ s := .idle rfl (skipTrivia_held_append_rest s).symm
  drain _ := .drain
  bump _ := .bump
  node _ hshape _ h := h.node (hmade.other _ (hshape.recipe rfl) _ _)
  wrap {mark s t shape} hshape h :=
    .close (t := cut mark s) (List.take_append_drop _ _).symm rfl h
      (hmade.other _ (hshape.recipe rfl) _ _)
  byRecipe {s shape recipe sight} _ _ hrecipe hstarts hsight h :=
    h.node (hmade.recipe s shape recipe sight hrecipe hstarts hsight)
  told _ _ _ _ := .idle rfl rfl
  opener _ _ _ := .idle rfl rfl
  closed _ _ := .idle rfl rfl
  unclosed _ _ _ := .idle rfl rfl
  entered _ _ _ := .idle rfl rfl
  left _ _ := .idle rfl rfl
  refused _ _ _ _ := (KeepsNodes.bump _).node (hmade.other _ rfl _ _)
  skipped stopAtPipe s := by
    obtain ⟨depth, hskips⟩ := skips_opened stopAtPipe s
    obtain ⟨ls, hleaves⟩ := hskips.leaves
    refine KeepsNodes.node ⟨?_, fun _ => ?_⟩ (hmade.other _ rfl _ _)
    · exact (Parser.skipBalanced_ends stopAtPipe (opened s)).1.leads.leaves
    · change FollowedAll P _ (Parser.skipBalanced stopAtPipe (opened s)).2.built.reverse
      rw [hleaves]
      exact followedAll_leaves ls

end State

/-- **What holds of every node of a text**, if it holds of what is made by a recipe. -/
theorem parseTree_followed {P : List (Kind × String) → Shape → List Tree → Prop}
    (hmade : Made P) (text : String) (limit : Nat) :
    (parseTree text limit).tree.Followed P [] := by
  have hkeeps : KeepsNodes P (start (lex text) text.utf8ByteSize)
      (Parse.finalState (lex text) text.utf8ByteSize limit) :=
    Parse.finalState_law (followed_law hmade) (lex text) text.utf8ByteSize limit
  have hfollowed := hkeeps.followed trivial
  obtain ⟨-, hrest, hheld, -⟩ := Parse.finalState_leads (lex text) text.utf8ByteSize limit
  change (Parse.finalState (lex text) text.utf8ByteSize limit).rest = [] at hrest
  change (Parse.finalState (lex text) text.utf8ByteSize limit).held = [] at hheld
  rw [State.Followed, Parse.built_finalState, afterwards, hheld, hrest] at hfollowed
  exact hfollowed.1

end SplQuery
