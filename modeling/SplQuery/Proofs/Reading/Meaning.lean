import Mathlib.Data.List.Forall2
import SplQuery.Meaning.Pipeline
import SplQuery.Proofs.Reading.Adds

/-!
# What trees mean without their trivia

The meaning of a node is found from its children and the lexemes directly under it, and trivia
among them does not matter. So what a node means can be told from its bare form: the children that
are left when trivia is dropped are known one by one (`Placed.solid`), and all views of the node
give the same for them.

* `Placed.bare_place` — placing a tree does not change its bare form.
* `Placed.node_of_bare` — the children of a node, from its bare form.
* `Placed.lexemes_eq`, `Placed.filter_parts` — what is read off a node is read off them.
-/

namespace SplQuery

namespace Placed

mutual

/-- The tree without trivia and without places. -/
def bare : Placed → List Tree
  | .leaf _ kind text => if kind.isTrivia then [] else [.leaf kind text]
  | .node _ _ shape children => [.node shape (bareAll children)]

/-- Trees without trivia and without places. -/
def bareAll : List Placed → List Tree
  | [] => []
  | p :: ps => p.bare ++ bareAll ps

end

/-- Placing a tree does not change what it is without trivia. -/
theorem bare_place (t : Tree) (start : Nat) : (t.place start).bare = t.bare := by
  induction t using Tree.rec (motive_2 := fun ts => ∀ start,
    bareAll (Tree.placeAll start ts) = Tree.bareAll ts) generalizing start with
  | leaf kind text => rw [Tree.place, bare, Tree.bare]
  | node shape children ih => rw [Tree.place, ofChildren, bare, Tree.bare, ih]
  | nil => rfl
  | cons t ts iht ihts => rw [Tree.placeAll, bareAll, Tree.bareAll, iht, ihts]

/-! ## Children -/

/-- Whether the tree is a leaf that is trivia. -/
def isTrivia : Placed → Bool
  | .leaf _ kind _ => kind.isTrivia
  | .node _ _ _ _ => false

/-- Trees without those that are trivia themselves. -/
def solid (ps : List Placed) : List Placed := ps.filter (!·.isTrivia)

theorem bare_of_isTrivia {p : Placed} (h : p.isTrivia = true) : p.bare = [] := by
  cases p with
  | leaf span kind text =>
    have hkind : kind.isTrivia = true := h
    rw [bare, if_pos hkind]
  | node => cases h

/-- What is no trivia is one tree when trivia is dropped. -/
theorem exists_bare_of_not_isTrivia {p : Placed} (h : p.isTrivia = false) :
    ∃ t, p.bare = [t] := by
  cases p with
  | leaf span kind text =>
    have hkind : ¬kind.isTrivia = true := Bool.eq_false_iff.mp h
    exact ⟨_, by rw [bare, if_neg hkind]⟩
  | node => exact ⟨_, by rw [bare]⟩

/-- Trees without trivia are the bare forms of those that are left. -/
theorem solid_of_bareAll {ps : List Placed} {ts : List Tree} (h : bareAll ps = ts) :
    List.Forall₂ (fun p t => p.bare = [t]) (solid ps) ts := by
  induction ps generalizing ts with
  | nil =>
    subst h
    exact .nil
  | cons p ps ih =>
    rw [bareAll] at h
    rcases hp : p.isTrivia with _ | _
    · obtain ⟨t, ht⟩ := exists_bare_of_not_isTrivia hp
      rw [ht, List.singleton_append] at h
      subst h
      rw [solid, List.filter_cons_of_pos (by rw [hp]; rfl)]
      exact .cons ht (ih rfl)
    · rw [bare_of_isTrivia hp, List.nil_append] at h
      rw [solid, List.filter_cons_of_neg (by rw [hp]; exact Bool.false_ne_true)]
      exact ih h

/-- A tree whose bare form is a node is a node of that shape. -/
theorem node_of_bare {p : Placed} {shape : Shape} {ts : List Tree}
    (h : p.bare = [.node shape ts]) :
    ∃ span core? children qs, p = .node span core? shape children ∧ solid children = qs ∧
      List.Forall₂ (fun q t => q.bare = [t]) qs ts := by
  cases p with
  | leaf span kind text =>
    rw [bare] at h
    split at h <;> cases h
  | node span core? shape' children =>
    rw [bare] at h
    obtain ⟨rfl, hts⟩ := Tree.node.inj (List.cons.inj h).1
    exact ⟨span, core?, children, _, rfl, rfl, solid_of_bareAll hts⟩

/-- Which node a tree is can be told from its bare form. -/
theorem isNode_iff_of_bare {p : Placed} {shape : Shape} {t : Tree} (h : p.bare = [t]) :
    p.isNode shape = true ↔ ∃ ts, t = .node shape ts := by
  constructor
  · intro hnode
    cases p with
    | leaf => cases hnode
    | node span core? shape' children =>
      obtain rfl := Option.some.inj (eq_of_beq hnode)
      rw [bare] at h
      exact ⟨_, (List.cons.inj h).1.symm⟩
  · rintro ⟨ts, rfl⟩
    obtain ⟨_, _, _, _, rfl, -, -⟩ := node_of_bare h
    exact beq_self_eq_true _

theorem shape?_of_bare {p : Placed} {shape : Shape} {ts : List Tree}
    (h : p.bare = [.node shape ts]) : p.shape? = some shape := by
  obtain ⟨_, _, _, _, rfl, -, -⟩ := node_of_bare h
  rfl

theorem lexeme?_of_bare {p : Placed} {shape : Shape} {ts : List Tree}
    (h : p.bare = [.node shape ts]) : p.lexeme? = none := by
  obtain ⟨_, _, _, _, rfl, -, -⟩ := node_of_bare h
  rfl

theorem isNode_of_bare {p : Placed} {shape : Shape} {ts : List Tree}
    (h : p.bare = [.node shape ts]) : p.isNode shape = true := by
  rw [isNode, shape?_of_bare h]
  exact beq_self_eq_true _

/-- A tree whose bare form is a lexeme is that lexeme. -/
theorem leaf_of_bare {p : Placed} {k : Kind} {w : String} (h : p.bare = [.leaf k w]) :
    (∃ span, p = .leaf span k w) ∧ k.isTrivia = false := by
  cases p with
  | leaf span kind text =>
    rw [bare] at h
    split at h
    · cases h
    · next hkind =>
      cases h
      exact ⟨⟨span, rfl⟩, Bool.eq_false_iff.mpr hkind⟩
  | node => cases h

/-! ## Views -/

theorem lexeme?_of_isTrivia {p : Placed} (h : p.isTrivia = true) : p.lexeme? = none := by
  cases p with
  | leaf span kind text =>
    have hkind : kind.isTrivia = true := h
    rw [lexeme?, if_pos hkind]
  | node => cases h

theorem shape?_of_isTrivia {p : Placed} (h : p.isTrivia = true) : p.shape? = none := by
  cases p with
  | leaf => rfl
  | node => cases h

section Views

variable {span : Span} {core? : Option Span} {shape : Shape} {ps : List Placed}

/-- Trivia is no lexeme of a node. -/
theorem lexemes_eq :
    (Placed.node span core? shape ps).lexemes = (solid ps).filterMap lexeme? := by
  rw [lexemes, children, solid, List.filterMap_filter]
  congr 1
  funext p
  rcases hp : p.isTrivia with _ | _
  · rfl
  · exact lexeme?_of_isTrivia hp

/-- Trivia is no child of any shape. -/
theorem nodesOf_eq (sought : Shape) :
    (Placed.node span core? shape ps).nodesOf sought = (solid ps).filter (·.isNode sought) := by
  rw [nodesOf, children, solid, List.filter_filter]
  congr 1
  funext p
  rcases hp : p.isTrivia with _ | _
  · exact (Bool.and_true _).symm
  · rw [isNode, shape?_of_isTrivia hp]
    rfl

theorem node?_eq (sought : Shape) :
    (Placed.node span core? shape ps).node? sought = (solid ps).find? (·.isNode sought) := by
  have hnodes : (Placed.node span core? shape ps).node? sought =
      ((Placed.node span core? shape ps).nodesOf sought).head? := by
    rw [node?, nodesOf, List.head?_filter]
  rw [hnodes, nodesOf_eq, List.head?_filter]

/-- The first lexeme of a node that begins with one. -/
theorem firstLexeme?_of_leaf {qs : List Placed} {place : Span} {k : Kind} {w : String}
    (hk : k.isTrivia = false) (h : solid ps = .leaf place k w :: qs) :
    (Placed.node span core? shape ps).firstLexeme? = some ⟨k, place.start, w⟩ := by
  have hleaf : (Placed.leaf place k w).lexeme? = some ⟨k, place.start, w⟩ :=
    if_neg (by rw [hk]; exact Bool.false_ne_true)
  rw [firstLexeme?, lexemes_eq, h, List.filterMap_cons_some hleaf]
  rfl

theorem partsOfAll_eq_map (ps : List Placed) :
    partsOfAll ps = ps.map fun p => ⟨p, p.meaning⟩ := by
  induction ps with
  | nil => rfl
  | cons p ps ih => rw [partsOfAll, ih, List.map_cons]

/-- Parts that are sought among the children of a node are found among those that are no trivia,
if trivia is not sought. -/
theorem filter_parts {sought : Part → Bool}
    (h : ∀ p : Part, p.tree.isTrivia = true → sought p = false) :
    (partsOfAll ps).filter sought = (partsOfAll (solid ps)).filter sought := by
  induction ps with
  | nil => rfl
  | cons p ps ih =>
    rcases hp : p.isTrivia with _ | _
    · rw [solid, List.filter_cons_of_pos (by rw [hp]; rfl), partsOfAll, partsOfAll,
        List.filter_cons, List.filter_cons, ih]
      rfl
    · have hno : ¬sought ⟨p, p.meaning⟩ = true := Bool.eq_false_iff.mp (h _ hp)
      rw [solid, List.filter_cons_of_neg (by rw [hp]; exact Bool.false_ne_true), partsOfAll,
        List.filter_cons_of_neg hno, ih]
      rfl

theorem find?_parts {sought : Part → Bool}
    (h : ∀ p : Part, p.tree.isTrivia = true → sought p = false) :
    (partsOfAll ps).find? sought = (partsOfAll (solid ps)).find? sought := by
  rw [← List.head?_filter, ← List.head?_filter, filter_parts h]

theorem meaning_of_isTrivia {p : Placed} (h : p.isTrivia = true) : p.meaning = .nothing := by
  cases p with
  | leaf => rfl
  | node => cases h

/-- What is read off every part that has a meaning is read off those that are no trivia. -/
theorem filterMap_parts {α : Type} {read : Part → Option α}
    (h : ∀ p : Part, p.meaning = .nothing → read p = none) :
    (partsOfAll ps).filterMap read = (partsOfAll (solid ps)).filterMap read := by
  induction ps with
  | nil => rfl
  | cons p ps ih =>
    rcases hp : p.isTrivia with _ | _
    · rw [solid, List.filter_cons_of_pos (by rw [hp]; rfl), partsOfAll, partsOfAll,
        List.filterMap_cons, List.filterMap_cons, ih]
      rfl
    · have hno : read ⟨p, p.meaning⟩ = none := h _ (meaning_of_isTrivia hp)
      rw [solid, List.filter_cons_of_neg (by rw [hp]; exact Bool.false_ne_true), partsOfAll,
        List.filterMap_cons_none hno, ih]
      rfl

end Views

end Placed

namespace Meaning

open Placed

variable {ps : List Placed}

theorem expressionParts_eq : expressionParts (partsOfAll ps) =
    expressionParts (partsOfAll (solid ps)) :=
  filter_parts fun _ hp => by rw [shape?_of_isTrivia hp]; rfl

theorem part?_eq (shape : Shape) : part? shape (partsOfAll ps) =
    part? shape (partsOfAll (solid ps)) :=
  find?_parts fun _ hp => by rw [isNode, shape?_of_isTrivia hp]; rfl

theorem part?_eq_map (shape : Shape) : part? shape (partsOfAll ps) =
    (ps.find? (·.isNode shape)).map fun p => ⟨p, p.meaning⟩ := by
  rw [part?, partsOfAll_eq_map, List.find?_map]
  rfl

end Meaning

theorem Placed.eq_node_of_isNode {p : Placed} {shape : Shape} (h : p.isNode shape = true) :
    ∃ span core? children, p = .node span core? shape children := by
  cases p with
  | leaf => cases h
  | node span core? shape children =>
    obtain rfl := Option.some.inj (eq_of_beq h)
    exact ⟨span, core?, children, rfl⟩

/-- A search by itself or of a clause stands for a search, or for nothing. -/
theorem Placed.meaning_of_search {p : Placed}
    (h : p.isNode .searchExpr = true ∨ p.isNode .whereClause = true) :
    p.meaning = .nothing ∨ ∃ s, p.meaning = .search s := by
  have hexpr {p : Placed} (h : p.isNode .searchExpr = true) : ∃ s, p.meaning = .search s := by
    obtain ⟨span, core?, children, rfl⟩ := eq_node_of_isNode h
    exact ⟨_, rfl⟩
  rcases h with h | h
  · exact .inr (hexpr h)
  · obtain ⟨span, core?, children, rfl⟩ := eq_node_of_isNode h
    rw [meaning, Meaning.ofNode, Meaning.part?_eq_map]
    cases hfound : children.find? (·.isNode .searchExpr) with
    | none => exact .inl rfl
    | some q => exact .inr (hexpr (List.find?_some hfound))

end SplQuery
