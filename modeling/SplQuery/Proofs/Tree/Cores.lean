import SplQuery.Proofs.Steps.State
import SplQuery.Proofs.Tree.Places

/-!
# Cores of placed trees

The core of a placed tree runs from its first lexeme that is no trivia to its last one. It lies
within what the tree covers, it starts where that first lexeme does, and the core of a node holds
the cores of its children.

* `Span.Within` — one stretch lies within another one.
* `Tree.hasToken` — there is a lexeme that is no trivia, and so a core.
* `Tree.within_coreOfAll` — the core of a child lies within that of its node.
* `Tree.start_of_token_first` — a core that starts with the first lexeme.
* `Tree.Everywhere` — something holds of every node of a tree.
-/

namespace SplQuery

namespace Span

/-- The stretch starts at or before its end, and both are in the other stretch. -/
structure Within (s outer : Span) : Prop where
  start : outer.start ≤ s.start
  ordered : s.start ≤ s.stop
  stop : s.stop ≤ outer.stop

theorem Within.trans {s t u : Span} (h : s.Within t) (h' : t.Within u) : s.Within u :=
  ⟨Nat.le_trans h'.start h.start, h.ordered, Nat.le_trans h.stop h'.stop⟩

theorem Within.refl {s : Span} (h : s.start ≤ s.stop) : s.Within s :=
  ⟨Nat.le_refl _, h, Nat.le_refl _⟩

end Span

open SplQuery.Span

/-! ## Several trees -/

namespace Placed

theorem joinCores_assoc (a b c : Option Span) :
    joinCores (joinCores a b) c = joinCores a (joinCores b c) := by
  cases a <;> cases b <;> cases c <;> rfl

theorem coreOfAll_cons (p : Placed) (ps : List Placed) :
    coreOfAll (p :: ps) = joinCores p.core? (coreOfAll ps) := rfl

theorem coreOfAll_append (ps qs : List Placed) :
    coreOfAll (ps ++ qs) = joinCores (coreOfAll ps) (coreOfAll qs) := by
  induction ps with
  | nil => rfl
  | cons p ps ih => rw [List.cons_append, coreOfAll_cons, ih, coreOfAll_cons, joinCores_assoc]

/-- Cores that lie in stretches one after another, and what they make together. -/
theorem within_joinCores {a b : Option Span} {start place stop : Nat}
    (ha : ∀ c ∈ a, c.Within ⟨start, place⟩) (hb : ∀ c ∈ b, c.Within ⟨place, stop⟩) :
    ∀ d ∈ joinCores a b, (∀ c ∈ a, c.Within d) ∧ (∀ c ∈ b, c.Within d) := by
  intro d hd
  cases a with
  | none =>
    refine ⟨fun c hc => ?_, fun c hc => ?_⟩
    · cases hc
    obtain rfl : c = d := Option.some.inj ((Option.mem_def.mp hc).symm.trans hd)
    exact .refl (hb c hc).ordered
  | some a =>
    obtain ⟨ha₁, ha₂, ha₃⟩ := ha a rfl
    cases b with
    | none =>
      obtain rfl : a = d := Option.some.inj hd
      exact ⟨fun c hc => Option.some.inj hc ▸ .refl ha₂, fun c hc => by cases hc⟩
    | some b =>
      obtain ⟨hb₁, hb₂, hb₃⟩ := hb b rfl
      obtain rfl : Span.mk a.start b.stop = d := Option.some.inj hd
      refine ⟨fun c hc => ?_, fun c hc => ?_⟩ <;> cases hc
      · exact ⟨Nat.le_refl _, ha₂, Nat.le_trans ha₃ (Nat.le_trans hb₁ hb₂)⟩
      · exact ⟨Nat.le_trans ha₂ (Nat.le_trans ha₃ hb₁), hb₂, Nat.le_refl _⟩

theorem within_of_joinCores {a b : Option Span} {start place stop : Nat} (hstart : start ≤ place)
    (hstop : place ≤ stop) (ha : ∀ c ∈ a, c.Within ⟨start, place⟩)
    (hb : ∀ c ∈ b, c.Within ⟨place, stop⟩) :
    ∀ d ∈ joinCores a b, d.Within ⟨start, stop⟩ := by
  intro d hd
  cases a with
  | none =>
    obtain ⟨h₁, h₂, h₃⟩ := hb d hd
    exact ⟨Nat.le_trans hstart h₁, h₂, h₃⟩
  | some a =>
    obtain ⟨ha₁, ha₂, ha₃⟩ := ha a rfl
    cases b with
    | none =>
      obtain rfl : a = d := Option.some.inj hd
      exact ⟨ha₁, ha₂, Nat.le_trans ha₃ hstop⟩
    | some b =>
      obtain ⟨hb₁, hb₂, hb₃⟩ := hb b rfl
      obtain rfl : Span.mk a.start b.stop = d := Option.some.inj hd
      exact ⟨ha₁, Nat.le_trans ha₂ (Nat.le_trans ha₃ (Nat.le_trans hb₁ hb₂)), hb₃⟩

theorem isSome_joinCores (a b : Option Span) :
    (joinCores a b).isSome = (a.isSome || b.isSome) := by
  cases a <;> cases b <;> rfl

end Placed

namespace Tree

/-! ## Tokens -/

/-- Whether there is a lexeme among trees that is no trivia. -/
def hasToken (ts : List Tree) : Bool := (leavesOfAll ts).any (!·.1.isTrivia)

theorem hasToken_cons (t : Tree) (ts : List Tree) :
    hasToken (t :: ts) = (t.leaves.any (!·.1.isTrivia) || hasToken ts) := by
  rw [hasToken, leavesOfAll, List.any_append]
  rfl

theorem hasToken_append (ts us : List Tree) :
    hasToken (ts ++ us) = (hasToken ts || hasToken us) := by
  induction ts with
  | nil => rfl
  | cons t ts ih => rw [List.cons_append, hasToken_cons, hasToken_cons, ih, Bool.or_assoc]

theorem hasToken_reverse (ts : List Tree) : hasToken ts.reverse = hasToken ts := by
  induction ts with
  | nil => rfl
  | cons t ts ih =>
    rw [List.reverse_cons, hasToken_append, ih, hasToken_cons t ts, hasToken_cons, Bool.or_comm]
    simp [hasToken, leavesOfAll]

theorem isSome_core?_place (t : Tree) (start : Nat) :
    (t.place start).core?.isSome = t.leaves.any (!·.1.isTrivia) := by
  induction t using Tree.rec (motive_2 := fun ts => ∀ start,
    (Placed.coreOfAll (placeAll start ts)).isSome = hasToken ts) generalizing start with
  | leaf kind text =>
    rw [place, Placed.core?, leaves, List.any_cons, List.any_nil, Bool.or_false]
    cases kind.isTrivia <;> rfl
  | node shape children ih => exact ih start
  | nil => rfl
  | cons t ts iht ihts =>
    rename_i start
    rw [placeAll, Placed.coreOfAll_cons, Placed.isSome_joinCores, iht, ihts, hasToken_cons]

theorem isSome_coreOfAll_placeAll (ts : List Tree) (start : Nat) :
    (Placed.coreOfAll (placeAll start ts)).isSome = hasToken ts :=
  isSome_core?_place (.node .root ts) start

/-! ## Bounds -/

theorem coreOfAll_placeAll_append (start : Nat) (ts us : List Tree) :
    Placed.coreOfAll (placeAll start (ts ++ us)) =
      Placed.joinCores (Placed.coreOfAll (placeAll start ts))
        (Placed.coreOfAll (placeAll (start + widthAll ts) us)) := by
  rw [placeAll_append, Placed.coreOfAll_append]

/-- The core of a tree lies within what the tree covers. -/
theorem within_core?_place (t : Tree) (start : Nat) :
    ∀ c ∈ (t.place start).core?, c.Within ⟨start, start + t.width⟩ := by
  induction t using Tree.rec (motive_2 := fun ts => ∀ start,
    ∀ c ∈ Placed.coreOfAll (placeAll start ts), c.Within ⟨start, start + widthAll ts⟩)
    generalizing start with
  | leaf kind text =>
    intro c hc
    rw [place, Placed.core?] at hc
    split at hc
    · cases hc
    · cases hc
      rw [width_leaf]
      exact .refl (Nat.le_add_right _ _)
  | node shape children ih =>
    rw [width_node]
    exact ih start
  | nil =>
    rename_i hc
    cases hc
  | cons t ts iht ihts =>
    rename_i start d hd
    rw [placeAll, Placed.coreOfAll_cons, span_place] at hd
    rw [widthAll_cons, ← Nat.add_assoc]
    exact Placed.within_of_joinCores (Nat.le_add_right _ _) (Nat.le_add_right _ _) (iht start)
      (ihts (start + t.width)) d hd

theorem within_coreOfAll_placeAll (ts : List Tree) (start : Nat) :
    ∀ c ∈ Placed.coreOfAll (placeAll start ts), c.Within ⟨start, start + widthAll ts⟩ := by
  have h := within_core?_place (.node .root ts) start
  rwa [width_node] at h

/-- The core of a child lies within that of its node. -/
theorem within_coreOfAll (pre : List Tree) (t : Tree) (post : List Tree) (start : Nat) :
    ∀ d ∈ Placed.coreOfAll (placeAll start (pre ++ t :: post)),
      ∀ c ∈ (t.place (start + widthAll pre)).core?, c.Within d := by
  intro d hd c hc
  rw [coreOfAll_placeAll_append] at hd
  have hpost (place : Nat) := within_coreOfAll_placeAll (t :: post) place
  obtain ⟨-, hlater⟩ :=
    Placed.within_joinCores (within_coreOfAll_placeAll pre start) (hpost _) d hd
  obtain ⟨e, he⟩ :
      ∃ e, Placed.coreOfAll (placeAll (start + widthAll pre) (t :: post)) = some e := by
    rw [← Option.isSome_iff_exists, isSome_coreOfAll_placeAll, hasToken_cons,
      ← isSome_core?_place t (start + widthAll pre), Option.mem_def.mp hc]
    rfl
  refine .trans ?_ (hlater e he)
  rw [placeAll, Placed.coreOfAll_cons, span_place] at he
  exact (Placed.within_joinCores (within_core?_place t _)
    (within_coreOfAll_placeAll post _) e he).1 c hc

/-- A placed child is a child that is placed after those before it. -/
theorem mem_placeAll {p : Placed} {ts : List Tree} {start : Nat} (h : p ∈ placeAll start ts) :
    ∃ pre t post, ts = pre ++ t :: post ∧ p = t.place (start + widthAll pre) := by
  induction ts generalizing start with
  | nil => cases h
  | cons t ts ih =>
    rw [placeAll, List.mem_cons, span_place] at h
    rcases h with rfl | h
    · exact ⟨[], t, ts, rfl, rfl⟩
    · obtain ⟨pre, u, post, rfl, rfl⟩ := ih h
      exact ⟨t :: pre, u, post, rfl, by rw [widthAll_cons, ← Nat.add_assoc]⟩

/-! ## The first lexeme -/

/-- The core of a tree starts with its first lexeme that is no trivia. -/
theorem start_core?_place (t : Tree) (start : Nat) :
    (t.place start).core?.map (·.start) = (t.place start).tokens.head?.map (·.span.start) := by
  induction t using Tree.rec (motive_2 := fun ts => ∀ start,
    (Placed.coreOfAll (placeAll start ts)).map (·.start) =
      (Placed.tokensOfAll (placeAll start ts)).head?.map (·.span.start)) generalizing start with
  | leaf kind text =>
    rw [place, Placed.core?, Placed.tokens]
    cases kind.isTrivia <;> rfl
  | node shape children ih => exact ih start
  | nil => rfl
  | cons t ts iht ihts =>
    rename_i start
    rw [placeAll, Placed.coreOfAll_cons, Placed.tokensOfAll]
    have ht := iht start
    have hts := ihts (t.place start).span.stop
    generalize (t.place start).tokens = ps at ht ⊢
    generalize Placed.coreOfAll _ = core? at hts ⊢
    cases ps with
    | nil =>
      rw [List.nil_append, ← hts, Option.map_eq_none_iff.mp ht]
      rfl
    | cons p ps =>
      obtain ⟨c, hc, hstart⟩ := Option.map_eq_some_iff.mp ht
      rw [hc, List.cons_append, List.head?_cons, Option.map_some]
      cases core? <;> exact congrArg some hstart

/-- Where the first lexeme is no trivia the core starts with it. -/
theorem start_of_token_first {ts : List Tree} {kind : Kind} {text : String} (start : Nat)
    (h : (leavesOfAll ts).head? = some (kind, text)) (hkind : kind.isTrivia = false) :
    ∃ c ∈ Placed.coreOfAll (placeAll start ts), c.start = start := by
  induction ts using Tree.rec_1 (motive_1 := fun t => ∀ start, t.leaves.head? = some (kind, text) →
    ∃ c ∈ (t.place start).core?, c.start = start) generalizing start with
  | leaf kind' text' =>
    rename_i start h
    obtain ⟨rfl, -⟩ := Prod.mk.inj (Option.some.inj h)
    rw [place, Placed.core?, hkind]
    exact ⟨_, rfl, rfl⟩
  | node shape children ih =>
    rename_i start h
    exact ih start h
  | nil => cases h
  | cons t ts iht ihts =>
    rw [leavesOfAll] at h
    rw [placeAll, Placed.coreOfAll_cons]
    cases hleaves : t.leaves with
    | nil =>
      have hnone : (t.place start).core? = none := by
        rw [← Option.not_isSome_iff_eq_none, isSome_core?_place, hleaves]
        simp
      rw [hleaves, List.nil_append] at h
      rw [hnone, span_place, width_of_leaves_nil hleaves]
      exact ihts start h
    | cons l ls =>
      obtain ⟨c, hc, hstart⟩ := iht start (by rw [hleaves] at h ⊢; exact h)
      rw [Option.mem_def.mp hc]
      cases Placed.coreOfAll _ with
      | none => exact ⟨c, rfl, hstart⟩
      | some d => exact ⟨⟨c.start, d.stop⟩, rfl, hstart⟩

/-! ## All nodes -/

section Everywhere

variable (P Q : Nat → Shape → List Tree → Prop)

mutual

/-- `P` holds of every node of a tree that starts at a given place: of the place where the node
starts, of its shape and of its children. -/
def Everywhere (start : Nat) : Tree → Prop
  | .leaf _ _ => True
  | .node shape children => P start shape children ∧ EverywhereAll start children

/-- `P` holds of every node of trees that are placed one after another. -/
def EverywhereAll (start : Nat) : List Tree → Prop
  | [] => True
  | t :: ts => t.Everywhere start ∧ EverywhereAll (start + t.width) ts

end

variable {P Q}

theorem everywhereAll_append {start : Nat} {ts us : List Tree} :
    EverywhereAll P start (ts ++ us) ↔
      EverywhereAll P start ts ∧ EverywhereAll P (start + widthAll ts) us := by
  induction ts generalizing start with
  | nil => exact ⟨fun h => ⟨trivial, h⟩, And.right⟩
  | cons t ts ih =>
    rw [List.cons_append, EverywhereAll, EverywhereAll, ih, widthAll_cons, Nat.add_assoc, and_assoc]

theorem everywhereAll_leaves (start : Nat) (ls : List Lexeme) :
    EverywhereAll P start (ls.map State.leaf) := by
  induction ls generalizing start with
  | nil => trivial
  | cons l ls ih => exact ⟨trivial, ih _⟩

theorem everywhereAll_of_forall {ts : List Tree} (h : ∀ t ∈ ts, ∀ start, t.Everywhere P start)
    (start : Nat) : EverywhereAll P start ts := by
  induction ts generalizing start with
  | nil => trivial
  | cons t ts ih =>
    obtain ⟨ht, hts⟩ := List.forall_mem_cons.mp h
    exact ⟨ht start, ih hts _⟩

theorem EverywhereAll.mono (hPQ : ∀ start shape ts, P start shape ts → Q start shape ts)
    {start : Nat} {ts : List Tree} (h : EverywhereAll P start ts) : EverywhereAll Q start ts := by
  induction ts using Tree.rec_1 (motive_1 := fun t => ∀ start, t.Everywhere P start →
    t.Everywhere Q start) generalizing start with
  | leaf => trivial
  | node shape children ih =>
    rename_i h
    exact ⟨hPQ _ _ _ h.1, ih h.2⟩
  | nil => trivial
  | cons t ts iht ihts => exact ⟨iht _ h.1, ihts h.2⟩

/-- Every node of a placed tree is a placed node of which `P` holds. -/
theorem EverywhereAll.of_mem_nodes {start : Nat} {ts : List Tree} (h : EverywhereAll P start ts)
    {n : Placed} (hn : n ∈ Placed.nodesOfAll (placeAll start ts)) :
    ∃ place shape children, n = (node shape children).place place ∧ P place shape children := by
  induction ts using Tree.rec_1 (motive_1 := fun t => ∀ start, t.Everywhere P start →
    n ∈ (t.place start).nodes →
    ∃ place shape children, n = (node shape children).place place ∧ P place shape children)
    generalizing start with
  | leaf =>
    rename_i hn
    cases hn
  | node shape children ih =>
    rename_i start h hn
    rcases List.mem_cons.mp hn with rfl | hn
    · exact ⟨start, shape, children, rfl, h.1⟩
    · exact ih h.2 hn
  | nil => cases hn
  | cons t ts iht ihts =>
    rw [placeAll, Placed.nodesOfAll, List.mem_append, span_place] at hn
    rcases hn with hn | hn
    · exact iht _ h.1 hn
    · exact ihts h.2 hn

end Everywhere

end Tree

end SplQuery
