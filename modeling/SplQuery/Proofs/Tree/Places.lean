import SplQuery.Proofs.Lexeme.Partition
import SplQuery.Tree.View

/-!
# Where trees stand

A placed tree covers as many bytes as its text has, and trees that are placed one after another
adjoin. A tree that is placed further on is the same with every stretch shifted.

* `Tree.leaves_place`, `Placed.leaves_subset_of_mem_nodes` — the lexemes under placed trees.
* `Tree.width` — the number of bytes of a tree.
* `Tree.span_place`, `Tree.placeAll_append` — the stretches of placed trees.
* `Placed.shift` — a tree further on; `Tree.place_add` — placing a tree further on.
-/

namespace SplQuery

/-- The stretch so many bytes further on. -/
def Span.shift (n : Nat) (s : Span) : Span := ⟨s.start + n, s.stop + n⟩

/-! ## Lexemes -/

namespace Placed

variable {n p : Placed}

/-- The lexemes under a node of a tree are among those of the tree, in order. -/
theorem leaves_sublist_of_mem_nodes (h : n ∈ p.nodes) : n.leaves.Sublist p.leaves := by
  induction p using Placed.rec (motive_2 := fun ps => n ∈ nodesOfAll ps →
    n.leaves.Sublist (leavesOfAll ps)) with
  | leaf => cases h
  | node span core? shape children ih =>
    rcases List.mem_cons.mp h with rfl | h
    · exact .refl _
    · exact ih h
  | nil h => cases h
  | cons c cs ihc ihcs h =>
    rcases List.mem_append.mp h with h | h
    · exact (ihc h).trans (List.sublist_append_left _ _)
    · exact (ihcs h).trans (List.sublist_append_right _ _)

/-- What is directly under a node of a tree is a node of the tree, unless it is a lexeme. -/
theorem mem_nodes_of_child {c : Placed} (h : n ∈ p.nodes) (hc : c ∈ n.children)
    (hshape : c.shape?.isSome = true) : c ∈ p.nodes := by
  induction p using Placed.rec (motive_2 := fun ps =>
    (c ∈ ps ∨ n ∈ nodesOfAll ps) → c ∈ nodesOfAll ps) with
  | leaf => cases h
  | node span core? shape children ih =>
    refine List.mem_cons_of_mem _ (ih ?_)
    rcases List.mem_cons.mp h with rfl | h
    · exact .inl hc
    · exact .inr h
  | nil h => exact h.elim nofun nofun
  | cons d ds ihd ihds h =>
    rw [nodesOfAll, List.mem_append, List.mem_cons] at *
    rcases h with (rfl | h) | h | h
    · cases c with
      | leaf => cases hshape
      | node => exact .inl List.mem_cons_self
    · exact .inr (ihds (.inl h))
    · exact .inl (ihd h)
    · exact .inr (ihds (.inr h))

end Placed

namespace Tree

/-- The lexemes under a placed tree are those under the tree. -/
theorem leaves_place (t : Tree) (start : Nat) : (t.place start).leaves = t.leaves := by
  induction t using Tree.rec (motive_2 := fun ts => ∀ start,
    Placed.leavesOfAll (placeAll start ts) = leavesOfAll ts) generalizing start with
  | leaf kind text => rfl
  | node shape children ih => exact ih start
  | nil => rfl
  | cons t ts iht ihts =>
    rename_i start
    rw [placeAll, Placed.leavesOfAll, leavesOfAll, iht, ihts]

end Tree

/-! ## Widths -/

namespace Tree

/-- The text under a tree is made of the texts of its leaves. -/
theorem text_eq_leaves (t : Tree) : t.text = t.leaves.flatMap (·.2.toList) := by
  induction t using Tree.rec (motive_2 := fun ts =>
    textOfAll ts = (leavesOfAll ts).flatMap (·.2.toList)) with
  | leaf kind text => simp only [Tree.text, leaves, List.flatMap_singleton]
  | node shape children ih => simpa only [Tree.text, leaves] using ih
  | nil => rfl
  | cons t ts iht ihts => rw [textOfAll, leavesOfAll, List.flatMap_append, iht, ihts]

/-- The number of bytes of a tree. -/
def width (t : Tree) : Nat := Text.width t.text

/-- The number of bytes of trees. -/
def widthAll (ts : List Tree) : Nat := Text.width (textOfAll ts)

theorem widthAll_nil : widthAll [] = 0 := rfl

theorem widthAll_cons (t : Tree) (ts : List Tree) : widthAll (t :: ts) = t.width + widthAll ts := by
  rw [widthAll, textOfAll, Text.width_append]
  rfl

theorem widthAll_append (ts us : List Tree) : widthAll (ts ++ us) = widthAll ts + widthAll us := by
  induction ts with
  | nil => rw [List.nil_append, widthAll_nil, Nat.zero_add]
  | cons t ts ih => rw [List.cons_append, widthAll_cons, widthAll_cons, ih, Nat.add_assoc]

theorem width_of_leaves_nil {t : Tree} (h : t.leaves = []) : t.width = 0 := by
  rw [width, text_eq_leaves, h]
  rfl

theorem width_leaf (kind : Kind) (text : String) :
    width (.leaf kind text) = text.utf8ByteSize := by
  rw [width, Tree.text, Text.utf8ByteSize_eq_width]

theorem width_node (shape : Shape) (ts : List Tree) : width (.node shape ts) = widthAll ts := by
  rw [width, text, widthAll]

/-- A placed tree covers as many bytes as the tree has. -/
theorem span_place (t : Tree) (start : Nat) : (t.place start).span = ⟨start, start + t.width⟩ := by
  induction t using Tree.rec (motive_2 := fun ts => ∀ start,
    (placeAll start ts).getLast?.elim start (·.span.stop) = start + widthAll ts)
    generalizing start with
  | leaf kind text => rw [place, width_leaf, Placed.span]
  | node shape children ih => rw [place, Placed.ofChildren, Placed.span, ih, width_node]
  | nil => rfl
  | cons t ts iht ihts =>
    rw [placeAll, iht, widthAll_cons, ← Nat.add_assoc, ← ihts]
    cases ts with
    | nil => rw [placeAll, List.getLast?_singleton, Option.elim_some, iht]; rfl
    | cons u us => rw [placeAll, List.getLast?_cons_cons]; rfl

/-- Trees that are placed one after another adjoin. -/
theorem placeAll_append (start : Nat) (ts us : List Tree) :
    placeAll start (ts ++ us) = placeAll start ts ++ placeAll (start + widthAll ts) us := by
  induction ts generalizing start with
  | nil => rfl
  | cons t ts ih =>
    rw [List.cons_append, placeAll, placeAll, ih, widthAll_cons, span_place, Nat.add_assoc]
    rfl

end Tree

/-! ## Shifting -/

namespace Placed

mutual

/-- The tree so many bytes further on. -/
def shift (n : Nat) : Placed → Placed
  | .leaf span kind text => .leaf (span.shift n) kind text
  | .node span core? shape children =>
    .node (span.shift n) (core?.map (·.shift n)) shape (shiftAll n children)

/-- The trees so many bytes further on. -/
def shiftAll (n : Nat) : List Placed → List Placed
  | [] => []
  | p :: ps => p.shift n :: shiftAll n ps

end

theorem shiftAll_eq_map (n : Nat) (ps : List Placed) : shiftAll n ps = ps.map (shift n) := by
  induction ps with
  | nil => rfl
  | cons p ps ih => rw [shiftAll, ih, List.map_cons]

variable (n : Nat) (p : Placed)

@[simp] theorem span_shift : (p.shift n).span = p.span.shift n := by
  cases p <;> rw [shift] <;> rfl

@[simp] theorem core?_shift : (p.shift n).core? = p.core?.map (·.shift n) := by
  cases p with
  | leaf span kind text =>
    rw [shift, core?, core?]
    split <;> rfl
  | node => rw [shift]; rfl

@[simp] theorem core_shift : (p.shift n).core = p.core.shift n := by
  rw [core, core, core?_shift, span_shift]
  cases p.core? <;> rfl

theorem joinCores_shift (a b : Option Span) :
    joinCores (a.map (·.shift n)) (b.map (·.shift n)) = (joinCores a b).map (·.shift n) := by
  cases a <;> cases b <;> rfl

theorem coreOfAll_shift (ps : List Placed) :
    coreOfAll (ps.map (shift n)) = (coreOfAll ps).map (·.shift n) := by
  induction ps with
  | nil => rfl
  | cons p ps ih =>
    change joinCores _ (coreOfAll _) = Option.map _ (joinCores _ (coreOfAll ps))
    rw [ih, core?_shift, joinCores_shift]

end Placed

namespace Tree

/-- A tree that is placed further on is the same with every stretch shifted. -/
theorem place_add (t : Tree) (start n : Nat) : t.place (start + n) = (t.place start).shift n := by
  induction t using Tree.rec (motive_2 := fun ts => ∀ start,
    placeAll (start + n) ts = (placeAll start ts).map (Placed.shift n)) generalizing start with
  | leaf kind text =>
    rw [place, place, Placed.shift, Span.shift, Nat.add_right_comm]
  | node shape children ih =>
    have hlast : (placeAll (start + n) children).getLast?.elim (start + n) (·.span.stop) =
        (placeAll start children).getLast?.elim start (·.span.stop) + n := by
      rw [ih, List.getLast?_map]
      cases (placeAll start children).getLast? with
      | none => rfl
      | some p => rw [Option.map_some, Option.elim_some, Option.elim_some, Placed.span_shift]; rfl
    rw [place, place, Placed.ofChildren, Placed.ofChildren, Placed.shift, hlast, ih,
      Placed.coreOfAll_shift, Placed.shiftAll_eq_map]
    rfl
  | nil => rfl
  | cons t ts iht ihts =>
    rw [placeAll, placeAll, List.map_cons, iht, ← ihts, Placed.span_shift]
    rfl

theorem placeAll_add (ts : List Tree) (start n : Nat) :
    placeAll (start + n) ts = (placeAll start ts).map (Placed.shift n) := by
  induction ts generalizing start with
  | nil => rfl
  | cons t ts ih =>
    rw [placeAll, placeAll, List.map_cons, place_add, ← ih, Placed.span_shift]
    rfl

end Tree

end SplQuery
