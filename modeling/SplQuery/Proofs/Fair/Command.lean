import SplQuery.Proofs.Fair.Meaning

/-!
# Where what commands mean stands

What a command is made of lies within the core of its node: fields, things to sort by and the like
are nodes under it with a lexeme in each, and all else is what its children stand for.

* `Placed.Fair.covers_listed`, `Placed.Fair.covers_clauseItems`, … — fields under a node.
* `Arguments.Lie` — sorted arguments that lie within a stretch; `Arguments.lie_ofParts`.
* `Meaning.command?_lies` — commands.
-/

namespace SplQuery

open SplQuery.Span

namespace Placed

variable {n p q : Placed} {shape : Shape}

theorem mem_of_node? (h : n.node? shape = some p) : p ∈ n.children ∧ p.isNode shape = true :=
  ⟨List.mem_of_find?_eq_some h, List.find?_some h⟩

namespace Fair

variable (h : n.Fair)

include h

/-! ## Fields under a node -/

theorem covers_node? (hp : n.node? shape = some p) (hsolid : shape.isSolid = true) : n.Covers p :=
  h.covers_solid (mem_of_node? hp).1 (mem_of_node? hp).2 hsolid

theorem covers_nodesOf (hp : p ∈ n.nodesOf shape) (hsolid : shape.isSolid = true) : n.Covers p :=
  h.covers_solid (List.mem_filter.mp hp).1 (List.mem_filter.mp hp).2 hsolid

/-- A child in which something with a lexeme stands has a lexeme itself. -/
theorem covers_under (hp : p ∈ n.children) (hq : p.Covers q) : n.Covers q :=
  (h.covers hp hq.outer).trans hq

theorem covers_listed : ∀ q ∈ n.listed, n.Covers q := by
  intro q hq
  obtain ⟨list, hlist, hq⟩ := List.mem_flatMap.mp hq
  have hmem := (List.mem_filter.mp hlist).1
  exact h.covers_under hmem ((h.child hmem).covers_nodesOf hq rfl)

theorem listedFields_lie : ∀ r ∈ n.listedFields, r.Lies n.core := by
  intro r hr
  obtain ⟨q, hq, rfl⟩ := List.mem_map.mp hr
  exact (h.covers_listed q hq).within

theorem covers_clauseItems : ∀ q ∈ n.clauseItems, n.Covers q := by
  intro q hq
  rw [clauseItems] at hq
  cases hlist : n.node? .fieldList with
  | none =>
    rw [hlist] at hq
    cases hq
  | some list =>
    rw [hlist] at hq
    have hmem := (mem_of_node? hlist).1
    exact h.covers_under hmem ((h.child hmem).covers_nodesOf hq rfl)

theorem byFields_lie : ∀ r ∈ n.byFields, r.Lies n.core := by
  intro r hr
  rw [byFields] at hr
  cases hclause : n.node? .byClause with
  | none =>
    rw [hclause] at hr
    cases hr
  | some clause =>
    rw [hclause] at hr
    obtain ⟨q, hq, rfl⟩ := List.mem_map.mp hr
    have hmem := (mem_of_node? hclause).1
    exact (h.covers_under hmem ((h.child hmem).covers_clauseItems q hq)).within

/-- The field of a clause with one field. -/
theorem clauseField_lies (hp : p ∈ n.children) :
    ∀ r ∈ (p.node? .fieldItem).map (·.fieldRef), r.Lies n.core := by
  intro r hr
  obtain ⟨q, hq, rfl⟩ := Option.map_eq_some_iff.mp hr
  exact (h.covers_under hp ((h.child hp).covers_node? hq rfl)).within

end Fair

end Placed

namespace Meaning

variable {node : Placed} {parts : List Part}

/-! ## Commands on fields -/

section Fields

variable (hnode : node.Fair)

include hnode

theorem sortKeys_lie : ∀ k ∈ sortKeys node, k.Lies node.core := by
  intro k hk
  obtain ⟨p, hp, hk⟩ := List.mem_filterMap.mp hk
  have hmem := (List.mem_filter.mp hp).1
  obtain ⟨field, hfield, hk⟩ := Option.bind_eq_some_iff.mp hk
  cases hk
  have hchild : ∃ q, p.Covers q := by
    cases hcall : p.node? .fieldCall with
    | some call => exact ⟨call, (hnode.child hmem).covers_node? hcall rfl⟩
    | none =>
      rw [hcall] at hfield
      obtain ⟨item, hitem, -⟩ := Option.map_eq_some_iff.mp hfield
      exact ⟨item, (hnode.child hmem).covers_node? hitem rfl⟩
  obtain ⟨q, hq⟩ := hchild
  exact (hnode.covers hmem hq.outer).within

theorem conversions_lie :
    ∀ c ∈ (node.nodesOf .fieldCall).filterMap conversion?, c.Lies node.core := by
  intro c hc
  obtain ⟨p, hp, hc⟩ := List.mem_filterMap.mp hc
  obtain ⟨name, -, hc⟩ := Option.bind_eq_some_iff.mp hc
  obtain ⟨field, -, hc⟩ := Option.bind_eq_some_iff.mp hc
  cases hc
  exact (hnode.covers_nodesOf hp rfl).within

theorem renamings_lie : ∀ r ∈ (node.nodesOf .renamePair).filterMap renaming?, r.Lies node.core := by
  intro r hr
  obtain ⟨p, hp, hr⟩ := List.mem_filterMap.mp hr
  rw [renaming?] at hr
  split at hr
  · cases hr
    exact (hnode.covers_nodesOf hp rfl).within
  · cases hr

theorem sources_lie : ∀ e ∈ node.children.filterMap source?, e.Lies node.core := by
  intro e he
  obtain ⟨p, hp, he⟩ := List.mem_filterMap.mp he
  rw [source?] at he
  split at he
  · next hshape =>
    cases he
    exact (hnode.covers_solid hp hshape rfl).within
  · split at he
    · next hshape =>
      cases he
      exact (hnode.covers_solid hp hshape rfl).within
    · cases he

theorem sortCommand_lies : (sortCommand node).Lies node.core := by
  have hkeys := sortKeys_lie hnode
  rw [sortCommand]
  dsimp only [SimpleCommand.Lies]
  split
  · exact fun k hk => hkeys k (List.dropLast_subset _ hk)
  · exact hkeys

theorem strcatCommand_lies : (strcatCommand node).Lies node.core := by
  have hsources := sources_lie hnode
  rw [strcatCommand]
  split
  · exact fun e he => hsources e (List.dropLast_subset _ he)
  · exact hsources

theorem overField_lies :
    ∀ r ∈ ((node.node? .overClause).bind (·.node? .fieldItem)).map (·.fieldRef),
      r.Lies node.core := by
  cases hclause : node.node? .overClause with
  | none => exact nofun
  | some clause => exact hnode.clauseField_lies (Placed.mem_of_node? hclause).1

end Fields

/-! ## Commands around what their children stand for -/

section Parts

variable {outer : Span} (hparts : ∀ part ∈ parts, part.Fits outer)

include hparts

theorem assignments_lie : ∀ a ∈ assignments parts, a.Lies outer := by
  intro a ha
  obtain ⟨part, hpart, ha⟩ := List.mem_filterMap.mp ha
  exact (hparts part hpart).assignment a ha

theorem aggregations_lie : ∀ a ∈ aggregations parts, a.Lies outer := by
  intro a ha
  obtain ⟨part, hpart, ha⟩ := List.mem_filterMap.mp ha
  exact (hparts part hpart).aggregation a ha

theorem search_lies {shape : Shape} :
    ∀ s ∈ (part? shape parts).bind (·.search?), s.Lies outer := by
  intro s hs
  obtain ⟨part, hpart, hs⟩ := Option.bind_eq_some_iff.mp hs
  exact (hparts part (mem_of_part? hpart).1).search s hs

theorem query_lies {shape : Shape} :
    ∀ q ∈ (part? shape parts).bind (·.pipeline?), q.Lies outer := by
  intro q hq
  obtain ⟨part, hpart, hq⟩ := Option.bind_eq_some_iff.mp hq
  exact (hparts part (mem_of_part? hpart).1).pipeline q hq

theorem headCommand_lies (node : Placed) : (headCommand node parts).Lies outer := by
  intro e he
  obtain ⟨part, hpart, he⟩ := Option.bind_eq_some_iff.mp he
  have hmem := (List.mem_filter.mp (List.mem_of_find?_eq_some hpart)).1
  exact (hparts part hmem).expression e he

end Parts

end Meaning

/-! ## Free arguments -/

namespace Arguments

/-- What the arguments are made of lies within a stretch. -/
structure Lie (outer : Span) (a : Arguments) : Prop where
  positionals : ∀ p ∈ a.positionals, p.span.Within outer
  byFields : ∀ r ∈ a.byFields, r.Lies outer
  overField : ∀ r ∈ a.overField, r.Lies outer
  queries : ∀ q ∈ a.queries, q.Lies outer

variable {outer : Span} {a : Arguments}

theorem lie_empty : empty.Lie outer := ⟨nofun, nofun, nofun, nofun⟩

theorem Lie.addPositional (h : a.Lie outer) {p : Positional} (hp : p.span.Within outer) :
    (a.addPositional p).Lie outer := by
  refine { h with positionals := fun q hq => ?_ }
  rcases List.mem_append.mp hq with hq | hq
  · exact h.positionals q hq
  · exact List.mem_singleton.mp hq ▸ hp

theorem Lie.nameLast (h : a.Lie outer) (name : String) : (a.nameLast name).Lie outer := by
  rw [Arguments.nameLast]
  cases hlast : a.positionals.getLast? with
  | none => exact h
  | some last =>
    refine { h with positionals := fun q hq => ?_ }
    rcases List.mem_append.mp hq with hq | hq
    · exact h.positionals q (List.dropLast_subset _ hq)
    · rw [List.mem_singleton.mp hq]
      exact h.positionals last (List.mem_of_getLast? hlast)

theorem Lie.addValue {p : Progress} (h : p.arguments.Lie outer) {tree : Placed}
    (htree : tree.core.Within outer) : (p.addValue tree).arguments.Lie outer := by
  unfold Progress.addValue
  dsimp only
  split
  · exact h.nameLast _
  · split
    · exact h
    · exact h.addPositional htree

theorem Lie.add {node : Placed} (hnode : node.Fair) {p : Progress} (h : p.arguments.Lie node.core)
    {part : Part} (hmem : part.tree ∈ node.children) (hfits : part.Fits node.core) :
    (p.add part).arguments.Lie node.core := by
  unfold Progress.add
  dsimp only
  split
  -- an option, which has no place
  · cases part.tree.option? with
    | none => exact h
    | some option => exact ⟨h.positionals, h.byFields, h.overField, h.queries⟩
  -- a value, then one with another name
  · next hshape =>
    exact h.addValue (hnode.covers_solid hmem (beq_iff_eq.mpr hshape) rfl).within
  · next hshape =>
    rw [addAliased]
    split
    · exact h
    · next target rest hnodes =>
      have htarget := (hnode.child hmem).covers_named (p := target) (beq_iff_eq.mpr hshape)
        (by rw [hnodes]; rfl)
      exact h.addPositional (hnode.covers_under hmem htarget).within
  -- a clause of fields, then one with a single field
  · refine { h with
      byFields := fun r hr => (List.mem_append.mp hr).elim (h.byFields r) fun hr => ?_ }
    obtain ⟨q, hq, rfl⟩ := List.mem_map.mp hr
    exact (hnode.covers_under hmem ((hnode.child hmem).covers_clauseItems q hq)).within
  · exact { h with overField := hnode.clauseField_lies hmem }
  -- a nested query
  · refine { h with queries := fun q hq => (List.mem_append.mp hq).elim (h.queries q) fun hq => ?_ }
    exact hfits.pipeline q (Option.mem_toList.mp hq)
  · exact h

/-- The sorted arguments of a node lie within its core. -/
theorem lie_ofParts {node : Placed} (hnode : node.Fair) {parts : List Part}
    (hmem : ∀ part ∈ parts, part.tree ∈ node.children)
    (hparts : ∀ part ∈ parts, part.Fits node.core) : (ofParts parts).Lie node.core := by
  have hfold (p : Progress) (h : p.arguments.Lie node.core) :
      (parts.foldl Progress.add p).arguments.Lie node.core := by
    induction parts generalizing p with
    | nil => exact h
    | cons part parts ih =>
      exact ih (fun q hq => hmem q (List.mem_cons_of_mem part hq))
        (fun q hq => hparts q (List.mem_cons_of_mem part hq)) (p.add part)
        (h.add hnode (hmem part List.mem_cons_self) (hparts part List.mem_cons_self))
  exact hfold ⟨empty, false⟩ lie_empty

theorem Lie.fields (h : a.Lie outer) : ∀ r ∈ a.fields, r.Lies outer := by
  intro r hr
  obtain ⟨p, hp, rfl⟩ := List.mem_map.mp hr
  exact h.positionals p hp

theorem Lie.query (h : a.Lie outer) : Pipeline.Lies? outer a.queries.head? :=
  Pipeline.lies?_iff.mpr fun q hq => h.queries q (List.mem_of_mem_head? hq)

end Arguments

namespace Meaning

variable {node : Placed} {parts : List Part} {outer : Span} {a : Arguments}

/-- The search of a command is empty where there is none. -/
theorem searchCommand_lies (hnode : node.Fair) (hparts : ∀ part ∈ parts, part.Fits node.core) :
    (searchCommand node parts).Lies node.core := by
  have hsearch : ∀ s ∈ (part? .searchExpr parts).bind (·.search?), s.Lies node.core :=
    search_lies hparts
  rw [searchCommand]
  cases h : (part? .searchExpr parts).bind (·.search?) with
  | none => exact ⟨hnode.ordered, trivial⟩
  | some s => exact hsearch s h

/-- A command without nested queries says of none of its free arguments where it stands. -/
theorem simple?_lies (word : CommandWord) : ∀ c ∈ simple? word a, c.Lies outer := by
  intro c hc
  cases word <;> cases hc <;> exact trivial

theorem nested?_lies (h : a.Lie outer) (word : CommandWord) :
    ∀ c ∈ nested? word a, c.Lies outer := by
  intro c hc
  have hall : Pipeline.LiesAll outer a.queries := Pipeline.liesAll_iff.mpr h.queries
  cases word <;> cases hc <;> first | exact h.query | exact hall | exact ⟨h.fields, h.query⟩

theorem genericCommand_lies (h : a.Lie outer) : (genericCommand node a).Lies outer :=
  Pipeline.liesAll_iff.mpr h.queries

section Commands

variable (hnode : node.Fair) (hmem : ∀ part ∈ parts, part.tree ∈ node.children)
  (hparts : ∀ part ∈ parts, part.Fits node.core)

include hnode hmem hparts

theorem freeCommand_lies : (freeCommand node parts).Lies node.core := by
  have hlie := Arguments.lie_ofParts hnode hmem hparts
  rw [freeCommand]
  cases hknown : node.commandWord?.bind fun word =>
      ((simple? word (.ofParts parts)).map .simple).or (nested? word (.ofParts parts)) with
  | none => exact genericCommand_lies hlie
  | some c =>
    obtain ⟨word, -, hc⟩ := Option.bind_eq_some_iff.mp hknown
    rcases Option.or_eq_some_iff.mp hc with hc | ⟨-, hc⟩
    · obtain ⟨c, hsimple, rfl⟩ := Option.map_eq_some_iff.mp hc
      exact simple?_lies word c hsimple
    · exact nested?_lies hlie word c hc

theorem command?_lies (shape : Shape) : ∀ c ∈ command? node parts shape, c.Lies node.core := by
  have hclosed : ∀ part ∈ parts, part.tree.isOpen = false → part.Fits node.core :=
    fun part hpart _ => hparts part hpart
  intro c hc
  cases shape with
  | searchCommand =>
    cases hc
    exact searchCommand_lies hnode hparts
  | whereCommand =>
    cases hc
    exact firstExpression?_lies hclosed
  | evalCommand =>
    cases hc
    exact assignments_lie hparts
  | fieldformatCommand =>
    cases hc
    exact assignments_lie hparts
  | statsCommand =>
    cases hc
    exact ⟨aggregations_lie hparts, hnode.byFields_lie, overField_lies hnode⟩
  | tstatsCommand =>
    cases hc
    exact ⟨aggregations_lie hparts, Search.lies?_iff.mpr (search_lies hparts),
      hnode.byFields_lie⟩
  | renameCommand =>
    cases hc
    exact renamings_lie hnode
  | inputlookupCommand =>
    cases hc
    exact Search.lies?_iff.mpr (search_lies hparts)
  | tableCommand =>
    cases hc
    exact hnode.listedFields_lie
  | fieldsCommand =>
    cases hc
    exact hnode.listedFields_lie
  | dedupCommand =>
    cases hc
    exact ⟨hnode.listedFields_lie, sortKeys_lie hnode⟩
  | sortCommand =>
    cases hc
    exact sortCommand_lies hnode
  | headCommand =>
    cases hc
    exact headCommand_lies hparts node
  | topCommand =>
    cases hc
    exact ⟨hnode.listedFields_lie, hnode.byFields_lie⟩
  | convertCommand =>
    cases hc
    exact conversions_lie hnode
  | strcatCommand =>
    cases hc
    exact strcatCommand_lies hnode
  | foreachCommand =>
    cases hc
    exact ⟨hnode.listedFields_lie, Pipeline.lies?_iff.mpr (query_lies hparts)⟩
  | keywordCommand =>
    cases hc
    exact freeCommand_lies hnode hmem hparts
  | genericCommand =>
    cases hc
    exact genericCommand_lies (Arguments.lie_ofParts hnode hmem hparts)
  | rexCommand | regexCommand | lookupCommand | replaceCommand | trendlineCommand | returnCommand
  | fitCommand =>
    cases hc
    exact trivial
  | _ => cases hc

end Commands

end Meaning

end SplQuery
