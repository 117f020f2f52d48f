import SplQuery.Proofs.Fair.Within
import SplQuery.Proofs.Nested.Meaning

/-!
# Where stages come from

A stage of a query, or of one that is nested in it, stands for a node of the tree that the query
comes from, and one that is looked into to find the query. This holds of any tree, formed or not.

* `Pipeline.everyStage` — the stages of a query and of all nested in it.
* `Meaning.Holds` — a stage is somewhere in what a node stands for.
* `Placed.exists_node_of_command` — a command stands for a node, and where that node does.
* `Placed.mem_lowered_of_mem_everyStage` — a command of a query is made to find the query.
-/

namespace SplQuery

open Placed

/-- The stages of a query and of all nested in it. -/
def Pipeline.everyStage (p : Pipeline) : List Stage := (p :: p.nested).flatMap (·.stages)

theorem Pipeline.mem_everyStage {p : Pipeline} {s : Stage} :
    s ∈ p.everyStage ↔ s ∈ p.stages ∨ ∃ q ∈ p.subqueries, s ∈ q.everyStage := by
  rw [everyStage, nested_eq, List.flatMap_cons, List.mem_append, List.flatMap_assoc,
    List.mem_flatMap]
  rfl

/-- The commands of a query are among its stages. -/
theorem Pipeline.mem_everyStage_of_mem_commands {p : Pipeline} {c : Command}
    (h : c ∈ p.commands) : ∃ span, .command c span ∈ p.everyStage := by
  obtain ⟨s, hs, hc⟩ := List.mem_filterMap.mp h
  cases s with
  | search => cases hc
  | command d span =>
    obtain rfl := Option.some.inj hc
    exact ⟨span, mem_everyStage.mpr (.inl hs)⟩

namespace Meaning

variable {node : Placed} {shape : Shape} {parts : List Part} {part : Part} {q : Pipeline}
  {s : Stage}

/-- A query is what is meant, or it is nested directly in what is meant. -/
def Has (m : Meaning) (q : Pipeline) : Prop := m = .pipeline q ∨ q ∈ m.subqueries

/-- A stage is somewhere in what is meant. -/
def Holds (m : Meaning) (s : Stage) : Prop := ∃ q, m.Has q ∧ s ∈ q.everyStage

/-! ## What the parts are read as -/

theorem meaning_of_pipeline? (h : part.pipeline? = some q) : part.meaning = .pipeline q := by
  rw [Part.pipeline?] at h
  split at h
  · next hm => rw [hm, Option.some.inj h]
  · cases h

theorem meaning_of_search? {search : Search} (h : part.search? = some search) :
    part.meaning = .search search := by
  rw [Part.search?] at h
  split at h
  · next hm => rw [hm, Option.some.inj h]
  · cases h

theorem has_of_search? {search : Search} (h : part.search? = some search)
    (hq : q ∈ search.subqueries) : part.meaning.Has q := by
  rw [meaning_of_search? h]
  exact .inr hq

theorem has_of_term? {t : Term} (h : part.term? = some t) (hq : q ∈ t.subqueries) :
    part.meaning.Has q := by
  rw [Part.term?] at h
  split at h
  · next hm =>
    rw [hm]
    exact .inr (Option.some.inj h ▸ hq)
  · next hm =>
    obtain rfl := Option.some.inj h
    obtain rfl := List.mem_singleton.mp hq
    exact .inl hm
  · cases h

theorem has_of_stage? (h : part.stage? = some s) (hq : q ∈ s.subqueries) :
    part.meaning.Has q := by
  rw [Part.stage?] at h
  split at h
  · next hm =>
    obtain rfl := Option.some.inj h
    rw [hm]
    exact .inr hq
  · next hm =>
    obtain rfl := Option.some.inj h
    rw [hm]
    exact .inr hq
  · cases h

/-- The queries of the terms that are read from parts. -/
theorem has_of_terms {ts : List Term} (hts : ∀ t ∈ ts, ∃ part ∈ parts, part.term? = some t)
    (hq : q ∈ Term.subqueriesOfAll ts) : ∃ part ∈ parts, part.meaning.Has q := by
  induction ts with
  | nil => cases hq
  | cons t ts ih =>
    obtain ⟨⟨part, hpart, ht⟩, hts⟩ := List.forall_mem_cons.mp hts
    rcases List.mem_append.mp hq with hq | hq
    · exact ⟨part, hpart, has_of_term? ht hq⟩
    · exact ih hts hq

theorem has_of_condition? (hq : q ∈ (condition? parts).elim [] (·.subqueries)) :
    ∃ part ∈ (part? .whereClause parts).toList, part.meaning.Has q := by
  cases hcondition : condition? parts with
  | none =>
    rw [hcondition] at hq
    cases hq
  | some search =>
    rw [hcondition] at hq
    obtain ⟨part, hpart, hsearch⟩ := Option.bind_eq_some_iff.mp hcondition
    exact ⟨part, Option.mem_toList.mpr hpart, has_of_search? hsearch hq⟩

theorem has_of_queries (hq : q ∈ queries parts) :
    ∃ part ∈ partsOf .subsearch parts, part.meaning.Has q := by
  obtain ⟨part, hpart, hq⟩ := List.mem_filterMap.mp hq
  exact ⟨part, hpart, .inl (meaning_of_pipeline? hq)⟩

theorem has_of_part? (hq : q ∈ ((part? shape parts).elim Meaning.nothing (·.meaning)).subqueries) :
    ∃ part ∈ (part? shape parts).toList, part.meaning.Has q := by
  cases hpart : part? shape parts with
  | none =>
    rw [hpart] at hq
    cases hq
  | some part =>
    rw [hpart] at hq
    exact ⟨part, List.mem_singleton_self part, .inr hq⟩

/-! ## What nodes are made of -/

/-- What is nested directly in what a node stands for is nested in one of the parts that are looked
into, or is one. -/
theorem has_of_mem_subqueries (hq : q ∈ (ofNode node shape parts).subqueries) :
    ∃ part ∈ visited (·.tree) shape parts, part.meaning.Has q := by
  have hterms {ts : List Term} (hts : ts = terms parts) (hq : q ∈ Term.subqueriesOfAll ts) :
      ∃ part ∈ parts.filter fun p => p.tree.shape?.any Shape.isTerm, part.meaning.Has q :=
    has_of_terms (fun t ht => List.mem_filterMap.mp (hts ▸ ht : t ∈ terms parts)) hq
  cases hquiet : shape.isQuiet with
  | true =>
    rw [subqueries_ofNode hquiet] at hq
    cases hq
  | false =>
    cases shape with
    | error => cases hq
    | root | whereClause => exact has_of_part? hq
    | pipeline =>
      obtain ⟨s, hs, hq⟩ := List.mem_flatMap.mp hq
      obtain ⟨part, hpart, hs⟩ := List.mem_filterMap.mp hs
      exact ⟨part, hpart, has_of_stage? hs hq⟩
    | subsearch =>
      simp only [ofNode] at hq
      cases hfound : (part? .pipeline parts).bind (·.pipeline?) with
      | none =>
        rw [hfound] at hq
        cases hq
      | some p =>
        rw [hfound] at hq
        obtain ⟨part, hpart, hp⟩ := Option.bind_eq_some_iff.mp hfound
        refine ⟨part, Option.mem_toList.mpr hpart, .inr ?_⟩
        rw [meaning_of_pipeline? hp]
        exact hq
    | searchExpr | searchOr | searchGroup => exact hterms rfl hq
    | searchNot =>
      change q ∈ ((term? node parts .searchNot).elim Meaning.nothing Meaning.term).subqueries at hq
      cases hterm : term? node parts .searchNot with
      | none =>
        rw [hterm] at hq
        cases hq
      | some t =>
        rw [hterm] at hq
        obtain ⟨part, hfound, hpart⟩ := Option.bind_eq_some_iff.mp hterm
        obtain ⟨operand, hoperand, ht⟩ := Option.bind_eq_some_iff.mp hpart
        obtain rfl := Option.some.inj ht
        exact ⟨part, Option.mem_toList.mpr hfound, has_of_term? hoperand hq⟩
    | searchCommand =>
      change q ∈ (((part? .searchExpr parts).bind (·.search?)).getD (.mk [] node.core)).subqueries
        at hq
      cases hfound : (part? .searchExpr parts).bind (·.search?) with
      | none =>
        rw [hfound] at hq
        cases hq
      | some search =>
        rw [hfound] at hq
        obtain ⟨part, hpart, hsearch⟩ := Option.bind_eq_some_iff.mp hfound
        exact ⟨part, Option.mem_toList.mpr hpart, has_of_search? hsearch hq⟩
    | tstatsCommand | inputlookupCommand => exact has_of_condition? hq
    | foreachCommand =>
      change q ∈ ((part? .subsearch parts).bind (·.pipeline?)).toList at hq
      obtain ⟨part, hpart, hp⟩ := Option.bind_eq_some_iff.mp (Option.mem_toList.mp hq)
      exact ⟨part, Option.mem_toList.mpr hpart, .inl (meaning_of_pipeline? hp)⟩
    | keywordCommand =>
      change q ∈ (freeCommand node parts).subqueries at hq
      rw [subqueries_freeCommand] at hq
      refine has_of_queries ?_
      cases hroom : node.commandWord?.bind CommandWord.room with
      | none =>
        rw [hroom] at hq
        exact hq
      | some n =>
        rw [hroom] at hq
        exact List.mem_of_mem_take hq
    | genericCommand =>
      refine has_of_queries ?_
      rw [← Arguments.queries_ofParts]
      exact hq
    | _ => cases hquiet

/-- An expression, a term or a command is no query. -/
theorem formed_ne_pipeline (shape : Shape) : (if shape.isExpression then
      (expression? node parts shape).elim Meaning.nothing Meaning.expression
    else if shape.isTerm then (term? node parts shape).elim .nothing .term
    else (command? node parts shape).elim .nothing .command) ≠ .pipeline q := by
  split
  · cases expression? node parts shape <;> nofun
  · split
    · cases term? node parts shape <;> nofun
    · cases command? node parts shape <;> nofun

theorem command?_of_formed {c : Command} (h : (if shape.isExpression then
      (expression? node parts shape).elim Meaning.nothing Meaning.expression
    else if shape.isTerm then (term? node parts shape).elim .nothing .term
    else (command? node parts shape).elim .nothing .command) = .command c) :
    command? node parts shape = some c := by
  split at h
  · cases he : expression? node parts shape <;> rw [he] at h <;> cases h
  · split at h
    · cases ht : term? node parts shape <;> rw [ht] at h <;> cases h
    · cases hc : command? node parts shape <;> rw [hc] at h <;> cases h
      rfl

/-- A stage of the query that a node stands for is one of the parts of the node that are looked
into, or a stage of a query that one of them stands for. -/
theorem holds_of_mem_stages (hnode : ofNode node shape parts = .pipeline q) (hs : s ∈ q.stages) :
    ∃ part ∈ visited (·.tree) shape parts, part.stage? = some s ∨ part.meaning.Holds s := by
  have hholds {m : Meaning} (hm : m = .pipeline q) : m.Holds s :=
    ⟨q, .inl hm, Pipeline.mem_everyStage.mpr (.inl hs)⟩
  have hpart? {shape : Shape}
      (hmeaning : (part? shape parts).elim Meaning.nothing (·.meaning) = .pipeline q) :
      ∃ part ∈ (part? shape parts).toList, part.stage? = some s ∨ part.meaning.Holds s := by
    cases hfound : part? shape parts with
    | none =>
      rw [hfound] at hmeaning
      cases hmeaning
    | some part =>
      rw [hfound] at hmeaning
      exact ⟨part, List.mem_singleton_self part, .inr (hholds hmeaning)⟩
  have hformed := @formed_ne_pipeline node parts q shape
  cases shape with
  | root | whereClause => exact hpart? hnode
  | pipeline =>
    obtain rfl := Meaning.pipeline.inj hnode
    obtain ⟨part, hpart, hstage⟩ := List.mem_filterMap.mp hs
    exact ⟨part, hpart, .inl hstage⟩
  | subsearch =>
    obtain rfl := Meaning.pipeline.inj hnode
    cases hfound : (part? .pipeline parts).bind (·.pipeline?) with
    | none =>
      rw [hfound] at hs
      cases hs
    | some p =>
      obtain ⟨part, hpart, hp⟩ := Option.bind_eq_some_iff.mp hfound
      rw [hfound] at hs hholds
      exact ⟨part, Option.mem_toList.mpr hpart, .inr (hholds (meaning_of_pipeline? hp))⟩
  | searchExpr | argList => cases hnode
  | assignment =>
    rw [ofNode] at hnode
    cases h : assignment? node parts <;> rw [h] at hnode <;> cases hnode
  | aggregation =>
    rw [ofNode] at hnode
    cases h : aggregation? node parts <;> rw [h] at hnode <;> cases hnode
  | _ => exact absurd hnode hformed

/-- A stage somewhere in what a node stands for is one of the parts that are looked into, or is
somewhere in what one of them stands for. -/
theorem holds_ofNode (h : (ofNode node shape parts).Holds s) :
    ∃ part ∈ visited (·.tree) shape parts, part.stage? = some s ∨ part.meaning.Holds s := by
  have hnested {q : Pipeline} (hq : q ∈ (ofNode node shape parts).subqueries)
      (hs : s ∈ q.everyStage) :
      ∃ part ∈ visited (·.tree) shape parts, part.stage? = some s ∨ part.meaning.Holds s := by
    obtain ⟨part, hpart, hhas⟩ := has_of_mem_subqueries hq
    exact ⟨part, hpart, .inr ⟨q, hhas, hs⟩⟩
  obtain ⟨q, hq | hq, hs⟩ := h
  · rcases Pipeline.mem_everyStage.mp hs with hstage | ⟨inner, hinner, hs⟩
    · exact holds_of_mem_stages hq hstage
    · refine hnested ?_ hs
      rw [hq]
      exact hinner
  · exact hnested hq hs

/-- What stands for a command is a node of a command, or stands for what one of its parts does. -/
theorem command?_of_ofNode {c : Command} (h : ofNode node shape parts = .command c) :
    command? node parts shape = some c ∨ ∃ part ∈ parts, part.meaning = .command c ∧
      (part.tree.isNode .pipeline = true ∨ part.tree.isNode .searchExpr = true) := by
  have hpart? {shape : Shape}
      (hmeaning : (part? shape parts).elim Meaning.nothing (·.meaning) = .command c) :
      ∃ part ∈ parts, part.meaning = .command c ∧ part.tree.isNode shape = true := by
    cases hfound : part? shape parts with
    | none =>
      rw [hfound] at hmeaning
      cases hmeaning
    | some part =>
      rw [hfound] at hmeaning
      exact ⟨part, (mem_of_part? hfound).1, hmeaning, (mem_of_part? hfound).2⟩
  have hformed := @command?_of_formed node shape parts c
  cases shape with
  | root =>
    obtain ⟨part, hpart, hmeaning, hshape⟩ := hpart? h
    exact .inr ⟨part, hpart, hmeaning, .inl hshape⟩
  | whereClause =>
    obtain ⟨part, hpart, hmeaning, hshape⟩ := hpart? h
    exact .inr ⟨part, hpart, hmeaning, .inr hshape⟩
  | pipeline | subsearch | searchExpr | argList => cases h
  | assignment =>
    rw [ofNode] at h
    cases ha : assignment? node parts <;> rw [ha] at h <;> cases h
  | aggregation =>
    rw [ofNode] at h
    cases ha : aggregation? node parts <;> rw [ha] at h <;> cases h
  | _ => exact .inl (hformed h)

end Meaning

namespace Placed

variable {n p : Placed} {s : Stage}

/-! ## The nodes that are looked into -/

theorem visitedOfAll_eq_map (ps : List Placed) :
    visitedOfAll ps = ps.map fun p => (p, p.visited) := by
  induction ps with
  | nil => rfl
  | cons p ps ih => rw [visitedOfAll, ih, List.map_cons]

section Children

variable {α β : Type} {tree : β → Placed} {shape : Shape}

theorem visited_map (f : α → β) (cs : List α) :
    Meaning.visited tree shape (cs.map f) = (Meaning.visited (tree <| f ·) shape cs).map f := by
  unfold Meaning.visited
  split <;> simp [List.find?_map, List.filter_map, Function.comp_def, Option.toList_map]

theorem mem_of_mem_visited {c : β} {cs : List β} (h : c ∈ Meaning.visited tree shape cs) :
    c ∈ cs := by
  have hfirst {member : β → Bool} (h : c ∈ (cs.find? member).toList) : c ∈ cs :=
    List.mem_of_find?_eq_some (Option.mem_toList.mp h)
  unfold Meaning.visited at h
  split at h <;> first
    | exact hfirst h
    | exact List.mem_of_mem_filter h
    | exact h
    | cases h

end Children

theorem visited_node (span : Span) (core? : Option Span) (shape : Shape) (children : List Placed) :
    (node span core? shape children).visited = .node span core? shape children ::
      (Meaning.visited id shape children).flatMap visited := by
  rw [visited, visitedOfAll_eq_map, visited_map, List.flatMap_map]
  rfl

theorem mem_visited_of_child {span : Span} {core? : Option Span} {shape : Shape}
    {children : List Placed} (hp : p ∈ Meaning.visited id shape children) (hn : n ∈ p.visited) :
    n ∈ (node span core? shape children).visited := by
  rw [visited_node]
  exact List.mem_cons_of_mem _ (List.mem_flatMap.mpr ⟨p, hp, hn⟩)

/-- What is looked into is a node of the tree. -/
theorem mem_nodes_of_mem_visited (h : n ∈ p.visited) : n ∈ p.nodes := by
  induction p using Placed.rec (motive_2 := fun ps => ∀ p ∈ ps, n ∈ p.visited →
    n ∈ nodesOfAll ps) with
  | leaf => cases h
  | node span core? shape children ih =>
    rw [visited_node] at h
    rcases List.mem_cons.mp h with rfl | h
    · exact List.mem_cons_self
    · obtain ⟨p, hp, hn⟩ := List.mem_flatMap.mp h
      exact List.mem_cons_of_mem _ (ih p (mem_of_mem_visited hp) hn)
  | nil p hp => cases hp
  | cons p ps ihp ihps t ht hn =>
    rcases List.mem_cons.mp ht with rfl | ht
    · exact List.mem_append_left _ (ihp hn)
    · exact List.mem_append_right _ (ihps t ht hn)

/-- A stage somewhere in what a tree stands for is what a node of it stands for that is looked
into. -/
theorem exists_visited_of_holds (h : p.meaning.Holds s) :
    ∃ n ∈ p.visited, (Part.mk n n.meaning).stage? = some s := by
  induction p using Placed.rec (motive_2 := fun ps => ∀ p ∈ ps, p.meaning.Holds s →
    ∃ n ∈ p.visited, (Part.mk n n.meaning).stage? = some s) with
  | leaf =>
    obtain ⟨q, hq | hq, -⟩ := h <;> cases hq
  | node span core? shape children ih =>
    obtain ⟨part, hpart, hstage⟩ := Meaning.holds_ofNode h
    rw [partsOfAll_eq_map, visited_map] at hpart
    obtain ⟨p, hp, rfl⟩ := List.mem_map.mp hpart
    suffices h : ∃ n ∈ p.visited, (Part.mk n n.meaning).stage? = some s by
      obtain ⟨n, hn, hs⟩ := h
      exact ⟨n, mem_visited_of_child hp hn, hs⟩
    rcases hstage with hstage | hholds
    · cases p with
      | leaf => cases hstage
      | node => exact ⟨_, visited_node _ _ _ _ ▸ List.mem_cons_self, hstage⟩
    · exact ih p (mem_of_mem_visited hp) hholds
  | nil p hp => cases hp
  | cons p ps ihp ihps t ht hholds =>
    rcases List.mem_cons.mp ht with rfl | ht
    · exact ihp hholds
    · exact ihps t ht hholds

/-- What a tree stands for if it is a query. -/
theorem holds_of_mem_everyStage (h : s ∈ p.pipeline.everyStage) : p.meaning.Holds s := by
  rw [pipeline] at h
  split at h
  · next q hq => exact ⟨q, .inl hq, h⟩
  · rcases Pipeline.mem_everyStage.mp h with h | ⟨q, hq, -⟩
    · cases h
    · cases hq

/-- A command of the query that a tree stands for, or of one that is nested in it, is what a node of
the tree stands for that is looked into, and stands where the node does. -/
theorem exists_visited_of_command {c : Command} {span : Span}
    (h : .command c span ∈ p.pipeline.everyStage) :
    ∃ n ∈ p.visited, n.meaning = .command c ∧ n.core = span := by
  obtain ⟨n, hn, hstage⟩ := exists_visited_of_holds (holds_of_mem_everyStage h)
  refine ⟨n, hn, ?_⟩
  rw [Part.stage?] at hstage
  split at hstage
  · cases hstage
  · next hmeaning =>
    cases hstage
    exact ⟨hmeaning, rfl⟩
  · cases hstage

theorem exists_node_of_command {c : Command} {span : Span}
    (h : .command c span ∈ p.pipeline.everyStage) :
    ∃ n ∈ p.nodes, n.meaning = .command c ∧ n.core = span := by
  obtain ⟨n, hn, hmeaning⟩ := exists_visited_of_command h
  exact ⟨n, mem_nodes_of_mem_visited hn, hmeaning⟩

/-! ## The commands that are made -/

theorem mem_lowered {c : Command} : c ∈ p.lowered ↔ ∃ n ∈ p.visited, n.meaning = .command c := by
  have hiff (m : Meaning) : m.asCommand? = some c ↔ m = .command c := by
    cases m <;> simp [Meaning.asCommand?]
  rw [lowered, List.mem_filterMap]
  exact exists_congr fun n => and_congr_right fun _ => hiff n.meaning

/-- The commands of the query that a tree stands for, and of those that are nested in it, are among
the ones that are made to find it. -/
theorem mem_lowered_of_mem_everyStage {c : Command} {span : Span}
    (h : .command c span ∈ p.pipeline.everyStage) : c ∈ p.lowered := by
  obtain ⟨n, hn, hmeaning, -⟩ := exists_visited_of_command h
  exact mem_lowered.mpr ⟨n, hn, hmeaning⟩

/-- What stands for a command is a node of a command. -/
theorem command?_of_meaning {n : Placed} {c : Command} (h : n.meaning = .command c) :
    ∃ shape, n.shape? = some shape ∧
      Meaning.command? n (partsOfAll n.children) shape = some c := by
  cases n with
  | leaf => cases h
  | node span core? shape children =>
    refine ⟨shape, rfl, ?_⟩
    rcases Meaning.command?_of_ofNode h with h | ⟨part, hpart, hmeaning, hshape⟩
    · exact h
    · obtain ⟨p, -, rfl⟩ := mem_partsOfAll hpart
      rcases hshape with hshape | hshape
      · obtain ⟨q, hq⟩ := exists_pipeline hshape
        rw [hq] at hmeaning
        cases hmeaning
      · obtain ⟨q, hq⟩ := exists_search hshape
        rw [hq] at hmeaning
        cases hmeaning

end Placed

end SplQuery
