import Mathlib.Data.List.Basic
import SplQuery.Meaning.Pipeline

/-!
# Nested queries

Queries are nested in a query to any depth, and the tree of a text has a node for each query between
brackets. A command does not keep all of them: it has a place for one, or for none, and what is
found beyond that is overlooked.

* `Pipeline.nested` — all queries nested in a query.
* `Placed.room` — how many of which parts of a node its meaning has a place for.
* `Placed.keptQueries` — the queries between brackets that are not overlooked.
-/

namespace SplQuery

/-! ## All nested queries -/

namespace Term

mutual

/-- A query nested in a term is smaller. -/
theorem sizeOf_lt_of_mem (t : Term) {q : Pipeline} (h : q ∈ t.subqueries) :
    sizeOf q < sizeOf t := by
  match t with
  | .or operands span =>
    have hlt := sizeOf_lt_of_mem_all operands h
    rw [Term.or.sizeOf_spec]
    omega
  | .not operand span =>
    have hlt := operand.sizeOf_lt_of_mem h
    rw [Term.not.sizeOf_spec]
    omega
  | .group terms span =>
    have hlt := sizeOf_lt_of_mem_all terms h
    rw [Term.group.sizeOf_spec]
    omega
  | .subsearch query span =>
    obtain rfl := List.mem_singleton.mp h
    rw [Term.subsearch.sizeOf_spec]
    omega
  | .comparison .. | .oneOf .. | .keyword .. | .macroCall .. => cases h

theorem sizeOf_lt_of_mem_all (ts : List Term) {q : Pipeline} (h : q ∈ subqueriesOfAll ts) :
    sizeOf q < sizeOf ts := by
  match ts with
  | [] => cases h
  | t :: ts =>
    rw [List.cons.sizeOf_spec]
    rcases List.mem_append.mp h with h | h
    · have hlt := t.sizeOf_lt_of_mem h
      omega
    · have hlt := sizeOf_lt_of_mem_all ts h
      omega

end

end Term

theorem Search.sizeOf_lt_of_mem (s : Search) {q : Pipeline} (h : q ∈ s.subqueries) :
    sizeOf q < sizeOf s := by
  obtain ⟨terms, span⟩ := s
  have hlt := Term.sizeOf_lt_of_mem_all terms h
  rw [Search.mk.sizeOf_spec]
  omega

theorem sizeOf_lt_of_mem_toList {o : Option Pipeline} {q : Pipeline} (h : q ∈ o.toList) :
    sizeOf q < sizeOf o := by
  obtain rfl := Option.mem_toList.mp h
  rw [Option.some.sizeOf_spec]
  omega

theorem Command.sizeOf_lt_of_mem (c : Command) {q : Pipeline} (h : q ∈ c.subqueries) :
    sizeOf q < sizeOf c := by
  have hcondition {o : Option Search} (h : q ∈ o.elim [] (·.subqueries)) : sizeOf q < sizeOf o := by
    cases o with
    | none => cases h
    | some s =>
      have hlt := s.sizeOf_lt_of_mem h
      rw [Option.some.sizeOf_spec]
      omega
  cases c with
  | simple => cases h
  | search s =>
    have hlt := s.sizeOf_lt_of_mem h
    rw [Command.search.sizeOf_spec]
    omega
  | tstats | inputlookup =>
    have hlt := hcondition h
    simp only [Command.tstats.sizeOf_spec, Command.inputlookup.sizeOf_spec]
    omega
  | join | append | foreach | map =>
    have hlt := sizeOf_lt_of_mem_toList h
    simp only [Command.join.sizeOf_spec, Command.append.sizeOf_spec, Command.foreach.sizeOf_spec,
      Command.map.sizeOf_spec]
    omega
  | union _ _ queries | multisearch queries | generic _ _ _ queries =>
    have hlt : sizeOf q < sizeOf queries := List.sizeOf_lt_of_mem h
    simp only [Command.union.sizeOf_spec, Command.multisearch.sizeOf_spec,
      Command.generic.sizeOf_spec]
    omega

theorem Stage.sizeOf_lt_of_mem (s : Stage) {q : Pipeline} (h : q ∈ s.subqueries) :
    sizeOf q < sizeOf s := by
  cases s with
  | search s =>
    have hlt := s.sizeOf_lt_of_mem h
    rw [Stage.search.sizeOf_spec]
    omega
  | command c span =>
    have hlt := c.sizeOf_lt_of_mem h
    rw [Stage.command.sizeOf_spec]
    omega

theorem Pipeline.sizeOf_lt_of_mem (p : Pipeline) {q : Pipeline} (h : q ∈ p.subqueries) :
    sizeOf q < sizeOf p := by
  obtain ⟨stages, span⟩ := p
  obtain ⟨s, hs, hq⟩ := List.mem_flatMap.mp h
  have hstage := s.sizeOf_lt_of_mem hq
  have hstages := List.sizeOf_lt_of_mem hs
  rw [Pipeline.mk.sizeOf_spec]
  change sizeOf s < sizeOf stages at hstages
  omega

namespace Pipeline

/-- All queries nested in a query, however deep, each before those that are nested in it. -/
def nested (p : Pipeline) : List Pipeline :=
  p.subqueries.attach.flatMap fun q => q.1 :: q.1.nested
termination_by sizeOf p
decreasing_by exact p.sizeOf_lt_of_mem q.2

theorem nested_eq (p : Pipeline) : p.nested = p.subqueries.flatMap fun q => q :: q.nested := by
  rw [nested, List.flatMap_subtype (g := fun q => q :: q.nested) fun _ _ => rfl,
    List.unattach_attach]

/-- Where nothing is nested in the queries nested directly in a query, these are all there are. -/
theorem nested_of_flat {p : Pipeline} (h : ∀ q ∈ p.subqueries, q.subqueries = []) :
    p.nested = p.subqueries := by
  have hnone : ∀ q ∈ p.subqueries, q :: q.nested = [q] := fun q hq => by
    rw [nested_eq q, h q hq]
    rfl
  rw [nested_eq, List.flatMap_congr hnone, List.flatMap_singleton']

end Pipeline

/-! ## Places for queries -/

/-- How many of the queries among its arguments a command with free arguments has a place for, all
of them if there is no number. -/
def CommandWord.room (word : CommandWord) : Option Nat :=
  if (Meaning.simple? word .empty).isSome then some 0
  else match word with
    | .join | .append | .appendcols | .appendpipe | .map => some 1
    | _ => none

/-- Parts of a shape of which no more than so many are kept; all of them if there is no number. -/
structure Room where
  shape : Shape
  left : Option Nat

namespace Room

/-- Whether there is a place for a tree. -/
def takes (room : Room) (p : Placed) : Bool := !p.isNode room.shape || room.left != some 0

/-- What is left after a tree. -/
def after (room : Room) (p : Placed) : Room :=
  if p.isNode room.shape then { room with left := room.left.map (· - 1) } else room

/-- The trees for which there is a place. -/
def heeded : Room → List Placed → List Placed
  | _, [] => []
  | room, p :: ps =>
    if room.takes p then p :: (room.after p).heeded ps else (room.after p).heeded ps

/-- Where there are no more trees than there is a place for, there is one for the first one and then
for the others. -/
theorem takes_of_count {room : Room} {p : Placed} {ps : List Placed}
    (h : ∀ n ∈ room.left, ((p :: ps).filter (·.isNode room.shape)).length ≤ n) :
    room.takes p = true ∧ ∀ n ∈ (room.after p).left,
      (ps.filter (·.isNode (room.after p).shape)).length ≤ n := by
  rw [takes, after]
  cases hp : p.isNode room.shape with
  | false =>
    rw [List.filter_cons_of_neg (by rw [hp]; exact Bool.false_ne_true)] at h
    exact ⟨rfl, h⟩
  | true =>
    rw [List.filter_cons_of_pos hp, List.length_cons] at h
    refine ⟨?_, fun n hn => ?_⟩
    · rw [Bool.not_true, Bool.false_or, bne_iff_ne]
      exact fun hzero => absurd (h 0 hzero) (Nat.not_succ_le_zero _)
    · obtain ⟨m, hm, rfl⟩ := Option.map_eq_some_iff.mp hn
      exact Nat.le_sub_one_of_lt (h m hm)

/-- As many as there is a place for. -/
def first {α : Type} (room : Room) (l : List α) : List α := room.left.elim l l.take

theorem heeded_sublist (room : Room) (ps : List Placed) : (room.heeded ps).Sublist ps := by
  induction ps generalizing room with
  | nil => exact .slnil
  | cons p ps ih =>
    rw [heeded]
    split
    · exact (ih _).cons_cons p
    · exact (ih _).cons p

theorem heeded_of_none (shape : Shape) (ps : List Placed) :
    (⟨shape, none⟩ : Room).heeded ps = ps := by
  induction ps with
  | nil => rfl
  | cons p ps ih =>
    have htakes : (⟨shape, none⟩ : Room).takes p = true := Bool.or_true _
    have hafter : (⟨shape, none⟩ : Room).after p = ⟨shape, none⟩ := by
      rw [after, Option.map_none, ite_self]
    rw [heeded, if_pos htakes, hafter, ih]

/-- What there is a place for gives what the first nodes of the shape give, where other trees give
nothing. -/
theorem flatMap_heeded {α : Type} {room : Room} {ps : List Placed} {f : Placed → List α}
    (h : ∀ p ∈ ps, p.isNode room.shape = false → f p = []) :
    (room.heeded ps).flatMap f = (room.first (ps.filter (·.isNode room.shape))).flatMap f := by
  induction ps generalizing room with
  | nil =>
    obtain ⟨shape, left⟩ := room
    cases left with
    | none => rfl
    | some n => exact congrArg (List.flatMap f) List.take_nil.symm
  | cons p ps ih =>
    obtain ⟨hp, hps⟩ := List.forall_mem_cons.mp h
    obtain ⟨shape, left⟩ := room
    rw [heeded, takes, after]
    cases hshape : p.isNode shape with
    | false =>
      rw [List.filter_cons_of_neg (by rw [hshape]; exact Bool.false_ne_true), Bool.not_false,
        Bool.true_or, if_pos rfl, if_neg Bool.false_ne_true, List.flatMap_cons, hp hshape, ih hps]
      rfl
    | true =>
      rw [List.filter_cons_of_pos hshape, if_pos rfl]
      -- the room counts down with what is taken of the list
      match left with
      | none => exact congrArg (f p ++ ·) (@ih ⟨shape, none⟩ hps)
      | some 0 => exact @ih ⟨shape, some 0⟩ hps
      | some (n + 1) => exact congrArg (f p ++ ·) (@ih ⟨shape, some n⟩ hps)

end Room

namespace Placed

/-- Of which parts of a node there may be more than its meaning has a place for: of the queries
among the arguments of a command, and of the conditions of `tstats`. -/
def room (node : Placed) : Room :=
  match node.shape? with
  | some .keywordCommand => ⟨.subsearch, node.commandWord?.bind CommandWord.room⟩
  | some .tstatsCommand => ⟨.whereClause, some 1⟩
  | _ => ⟨.subsearch, none⟩

/-- There is a place for everything that is under the node. -/
def HasRoom (node : Placed) : Prop :=
  ∀ n ∈ node.room.left, (node.nodesOf node.room.shape).length ≤ n

mutual

/-- The queries between brackets in a tree that are kept, each before those nested in it. -/
def keptQueries : Placed → List Placed
  | .leaf _ _ _ => []
  | .node span core? shape children =>
    let node := Placed.node span core? shape children
    let below := keptAmong node.room children
    if shape = .subsearch then node :: below else below

/-- The queries between brackets that are kept in trees for which there is a place. -/
def keptAmong : Room → List Placed → List Placed
  | _, [] => []
  | room, p :: ps => (if room.takes p then p.keptQueries else []) ++ keptAmong (room.after p) ps

end

theorem keptAmong_eq (room : Room) (ps : List Placed) :
    keptAmong room ps = (room.heeded ps).flatMap keptQueries := by
  induction ps generalizing room with
  | nil => rfl
  | cons p ps ih =>
    rw [keptAmong, Room.heeded, ih]
    split <;> rfl

/-- What is kept are queries between brackets in the tree, in order. -/
theorem keptQueries_sublist (p : Placed) :
    p.keptQueries.Sublist (p.nodes.filter (·.isNode .subsearch)) := by
  induction p using Placed.rec (motive_2 := fun ps => ∀ room,
    (keptAmong room ps).Sublist ((nodesOfAll ps).filter (·.isNode .subsearch))) with
  | leaf => exact .slnil
  | node span core? shape children ih =>
    rw [keptQueries, nodes, List.filter_cons, isNode, shape?]
    by_cases hshape : shape = .subsearch
    · rw [if_pos hshape, if_pos (by rw [hshape]; rfl)]
      exact (ih _).cons_cons _
    · rw [if_neg hshape, if_neg fun h => hshape (Option.some.inj (eq_of_beq h))]
      exact ih _
  | nil => exact .slnil
  | cons p ps ihp ihps =>
    rename_i room
    rw [keptAmong, nodesOfAll, List.filter_append]
    refine List.Sublist.append ?_ (ihps _)
    split
    · exact ihp
    · exact List.nil_sublist _

/-- Where there is a place for everything all queries between brackets are kept. -/
theorem keptQueries_eq {p : Placed} (h : ∀ n ∈ p.nodes, n.HasRoom) :
    p.keptQueries = p.nodes.filter (·.isNode .subsearch) := by
  induction p using Placed.rec (motive_2 := fun ps => ∀ room : Room,
    (∀ n ∈ nodesOfAll ps, n.HasRoom) →
    (∀ n ∈ room.left, (ps.filter (·.isNode room.shape)).length ≤ n) →
    keptAmong room ps = (nodesOfAll ps).filter (·.isNode .subsearch)) with
  | leaf => rfl
  | node span core? shape children ih =>
    obtain ⟨hroom, hchildren⟩ := List.forall_mem_cons.mp h
    rw [keptQueries, nodes, List.filter_cons, isNode, shape?, ih _ hchildren hroom]
    by_cases hshape : shape = .subsearch
    · rw [if_pos hshape, if_pos (by rw [hshape]; rfl)]
    · rw [if_neg hshape, if_neg fun h => hshape (Option.some.inj (eq_of_beq h))]
  | nil => rfl
  | cons p ps ihp ihps =>
    rename_i room hnodes hcount
    obtain ⟨hp, hps⟩ := List.forall_mem_append.mp hnodes
    rw [keptAmong, nodesOfAll, List.filter_append, ihp hp]
    have hroom := Room.takes_of_count hcount
    rw [if_pos hroom.1, ihps _ hps hroom.2]

end Placed

end SplQuery
