import SplQuery.Proofs.Operand.Meaning

/-!
# Nothing that is computed is lost

Where nothing is wrong with a text, what its tree computes with is what its query computes with:
assignments, conditions and the arguments of aggregations all stand for expressions, each with the
operands of the tree from left to right.

* `Placed.Retains` — what a node stands for has all that is under it.
* `parseQuery_operands` — every node of the tree of a text in which nothing is wrong.
-/

namespace SplQuery

open Placed Shape Meaning

namespace Placed

/-- The expressions that an aggregation takes. -/
def argumentNodes (p : Placed) : List Placed := (p.nodesOf .argList).flatMap expressionNodes

/-- What a node computes, or hands on, is in what it stands for: an assignment and a condition have
their expression, an aggregation has its arguments, and commands and queries have what they are made
of, in order. Each expression has the operands in its tree. A number by itself is no condition for
`head`. -/
def Retains (p : Placed) : Prop :=
  match p.shape? with
  | some .assignment => ∃ a e, p.meaning = .assignment a ∧ p.expressionNodes = [e] ∧
      e.Yields a.expression
  | some .aggregation => ∃ a, p.meaning = .aggregation a ∧
      List.Forall₂ Yields p.argumentNodes a.arguments
  | some .whereCommand => ∃ condition e,
      p.meaning = .command (.simple (.whereCommand (some condition))) ∧
      p.expressionNodes = [e] ∧ e.Yields condition
  | some .headCommand => ∃ limit condition options,
      p.meaning = .command (.simple (.head limit condition options)) ∧
      List.Forall₂ Yields (p.expressionNodes.filter (!isBareNumber ·)) condition.toList
  | some .evalCommand => ∃ as, p.meaning = .command (.simple (.eval as)) ∧
      List.Forall₂ (fun n a => n.meaning = .assignment a) (p.nodesOf .assignment) as
  | some .fieldformatCommand => ∃ as, p.meaning = .command (.simple (.fieldformat as)) ∧
      List.Forall₂ (fun n a => n.meaning = .assignment a) (p.nodesOf .assignment) as
  | some .statsCommand => ∃ variant as byFields overField options,
      p.meaning = .command (.simple (.stats variant as byFields overField options)) ∧
      List.Forall₂ (fun n a => n.meaning = .aggregation a) (p.nodesOf .aggregation) as
  | some .tstatsCommand => ∃ as datamodel condition byFields options,
      p.meaning = .command (.tstats as datamodel condition byFields options) ∧
      List.Forall₂ (fun n a => n.meaning = .aggregation a) (p.nodesOf .aggregation) as
  | some .pipeline => ∃ stages span, p.meaning = .pipeline (.mk stages span) ∧
      List.Forall₂ (fun n s => (Part.mk n n.meaning).stage? = some s) p.childNodes stages
  | _ => True

variable {span : Span} {core? : Option Span} {ps : List Placed}

/-! ## Parts of a class -/

/-- What is read off the parts of a class, if nothing is read off others. -/
theorem forall₂_filterMap {α : Type} {read : Part → Option α} {R : Placed → α → Prop}
    {member : Placed → Bool}
    (hmember : ∀ p ∈ ps, member p = true → ∃ a, read ⟨p, p.meaning⟩ = some a ∧ R p a)
    (hother : ∀ p ∈ ps, ¬ member p = true → read ⟨p, p.meaning⟩ = none) :
    List.Forall₂ R (ps.filter member) ((partsOfAll ps).filterMap read) := by
  induction ps with
  | nil => exact .nil
  | cons p ps ih =>
    obtain ⟨hp, hps⟩ := List.forall_mem_cons.mp hmember
    obtain ⟨hp', hps'⟩ := List.forall_mem_cons.mp hother
    rw [partsOfAll, List.filter_cons]
    split
    · next h =>
      obtain ⟨a, ha, hR⟩ := hp h
      rw [List.filterMap_cons_some ha]
      exact .cons hR (ih hps hps')
    · next h =>
      rw [List.filterMap_cons_none (hp' h)]
      exact ih hps hps'

/-- Plain parts stand for nothing, or for a value. -/
theorem meaning_of_isPlainPart {p : Placed} (h : p.shape?.all isPlainPart = true) :
    p.meaning = .nothing ∨ ∃ e, p.meaning = .expression e := by
  cases p with
  | leaf => exact .inl rfl
  | node span core? shape children =>
    cases shape with
    | literal =>
      change (Option.elim (Option.map literalOf _) _ _) = _ ∨ ∃ e,
        (Option.elim (Option.map literalOf _) _ _) = _
      cases (node span core? .literal children).firstLexeme? with
      | none => exact .inl rfl
      | some l => exact .inr ⟨_, rfl⟩
    | _ => first | exact .inl rfl | cases h

/-! ## Nodes -/

/-- An assignment has the expression that it assigns. -/
theorem Formed.retains_assignment (h : (node span core? .assignment ps).Formed) :
    (node span core? .assignment ps).Retains := by
  obtain ⟨es, hes⟩ := h.yields_parts
  obtain ⟨shapes, hone, hparts⟩ := h.parts
  have hcount : (content ps).parts.countP isExpression = 1 := by
    rw [hparts, List.countP_cons_of_neg (by decide), countP_of_one hone]
  obtain ⟨p, e, hp, -, he, hfirst⟩ := firstExpression?_of_countP hes hcount
  obtain ⟨target, htarget⟩ : ∃ target, (node span core? .assignment ps).node? .fieldItem =
      some target := by
    have hmem : Shape.fieldItem ∈ (content ps).parts := hparts ▸ List.mem_cons_self
    obtain ⟨q, hq, hshape⟩ := List.mem_filterMap.mp hmem
    exact Option.isSome_iff_exists.mp (List.find?_isSome.mpr ⟨q, hq, beq_iff_eq.mpr hshape⟩)
  have hassignment : assignment? (node span core? .assignment ps) (partsOfAll ps) =
      some ⟨target.value, e, (node span core? .assignment ps).core⟩ := by
    rw [assignment?, htarget, hfirst]
    rfl
  refine ⟨⟨target.value, e, (node span core? .assignment ps).core⟩, p, ?_, hp, he⟩
  rw [meaning, ofNode, hassignment]
  rfl

/-- Where there is one list of arguments at the most, the arguments are read off it. -/
theorem yields_arguments {shape : Shape} (hcount : (ps.filter (·.isNode .argList)).length ≤ 1)
    (hlists : ∀ p ∈ ps, p.isNode .argList = true → ∃ es, p.YieldsAll es) :
    List.Forall₂ Yields (node span core? shape ps).argumentNodes
      ((part? .argList (partsOfAll ps)).elim [] (·.expressions)) := by
  rw [argumentNodes, nodesOf, Placed.children, part?_eq_map, ← List.head?_filter]
  cases hfound : ps.filter (·.isNode .argList) with
  | nil => exact .nil
  | cons list lists =>
    rw [hfound] at hcount
    obtain rfl := List.eq_nil_of_length_eq_zero (Nat.le_zero.mp (Nat.le_of_succ_le_succ hcount))
    have hmem : list ∈ ps.filter (·.isNode .argList) := hfound ▸ List.mem_singleton_self list
    obtain ⟨es, hes⟩ := hlists list (List.mem_filter.mp hmem).1 (List.mem_filter.mp hmem).2
    rw [List.flatMap_singleton, List.head?_cons, Option.map_some, Option.elim_some,
      Part.expressions, hes.meaning]
    exact hes.each

/-- An aggregation has its arguments. -/
theorem Formed.retains_aggregation (h : (node span core? .aggregation ps).Formed) :
    (node span core? .aggregation ps).Retains := by
  obtain ⟨name, hname⟩ : ∃ l, (node span core? .aggregation ps).firstLexeme? = some l :=
    exists_firstLexeme? h.words
  have hcount : (ps.filter (·.isNode .argList)).length ≤ 1 := by
    obtain ⟨names, hnames, hparts⟩ := h.parts
    have hnone : names.countP (· == .argList) = 0 :=
      hnames.countP_eq_zero fun _ => ne_of_isPlainPart rfl
    simp only [isNode_eq_any, ← countP_parts]
    rcases hparts with hparts | hparts
    · rw [hparts, hnone]
      exact Nat.zero_le 1
    · rw [hparts, List.countP_cons_of_pos (by rfl), hnone]
  have harguments : List.Forall₂ Yields (node span core? .aggregation ps).argumentNodes
      ((part? .argList (partsOfAll ps)).elim [] (·.expressions)) :=
    yields_arguments hcount fun p hp => (h.children p hp).yieldsAll
  obtain ⟨a, ha, hargs⟩ :
      ∃ a, aggregation? (node span core? .aggregation ps) (partsOfAll ps) = some a ∧
        a.arguments = (part? .argList (partsOfAll ps)).elim [] (·.expressions) := by
    rw [aggregation?, hname]
    exact ⟨_, rfl, rfl⟩
  refine ⟨a, ?_, hargs ▸ harguments⟩
  rw [meaning, ofNode, ha]
  rfl

/-- A condition is an expression. -/
theorem Formed.retains_where (h : (node span core? .whereCommand ps).Formed) :
    (node span core? .whereCommand ps).Retains := by
  obtain ⟨es, hes⟩ := h.yields_parts
  obtain ⟨p, e, hp, -, he, hfirst⟩ := firstExpression?_of_countP hes (countP_of_one h.parts)
  exact ⟨e, p,
    congrArg (fun condition => Meaning.command (.simple (.whereCommand condition))) hfirst, hp, he⟩

/-- A condition for `head` is an expression. -/
theorem Formed.retains_head (h : (node span core? .headCommand ps).Formed) :
    (node span core? .headCommand ps).Retains := by
  obtain ⟨es, hes⟩ := h.yields_parts
  have hcount : (ps.filter (·.shape?.any isExpression)).length ≤ 1 := by
    rw [← countP_parts]
    exact h.parts.2
  refine ⟨_, _, _, rfl, ?_⟩
  change List.Forall₂ Yields ((ps.filter (·.shape?.any isExpression)).filter (!isBareNumber ·))
    (((expressionParts (partsOfAll ps)).find? fun p => !isBareNumber p.tree).bind
      (·.expression?)).toList
  rw [expressionParts_eq_map]
  generalize ps.filter (·.shape?.any isExpression) = l at hes hcount
  obtain _ | ⟨he, _ | _⟩ := hes
  · exact .nil
  · -- a number by itself is the limit
    rename_i p e
    rw [List.filter_singleton, List.map_singleton, List.find?_singleton]
    cases isBareNumber p with
    | true => exact .nil
    | false =>
      change List.Forall₂ Yields [p] ((Part.mk p p.meaning).expression?).toList
      rw [expression?_of_yields he]
      exact .cons he .nil
  · exact absurd hcount (by simp)

/-- The assignments of a command. -/
theorem Formed.assignments {shape : Shape} (h : (node span core? shape ps).Formed)
    (hparts : Only (· == .assignment) (content ps).parts) :
    List.Forall₂ (fun n a => n.meaning = .assignment a)
      ((node span core? shape ps).nodesOf .assignment) (Meaning.assignments (partsOfAll ps)) := by
  refine forall₂_filterMap (fun p hp hshape => ?_) fun p hp hshape => ?_
  · obtain ⟨span, core?, children, rfl⟩ := eq_node_of_isNode hshape
    obtain ⟨a, -, hmeaning, -⟩ := (h.children _ hp).retains_assignment
    exact ⟨a, by rw [Part.assignment?, hmeaning], hmeaning⟩
  · cases p with
    | leaf => rfl
    | node span core? s children =>
      have hs : (s == .assignment) = true := hparts s (mem_parts hp rfl)
      exact absurd (congrArg some (eq_of_beq hs)) fun heq => hshape (beq_iff_eq.mpr heq)

/-- The aggregations of a command. -/
theorem Formed.aggregations {shape : Shape} (h : (node span core? shape ps).Formed)
    (hparts : Only isAggregatingWhere (content ps).parts) :
    List.Forall₂ (fun n a => n.meaning = .aggregation a)
      ((node span core? shape ps).nodesOf .aggregation) (Meaning.aggregations (partsOfAll ps)) := by
  refine forall₂_filterMap (fun p hp hshape => ?_) fun p hp hshape => ?_
  · obtain ⟨span, core?, children, rfl⟩ := eq_node_of_isNode hshape
    obtain ⟨a, hmeaning, -⟩ := (h.children _ hp).retains_aggregation
    exact ⟨a, by rw [Part.aggregation?, hmeaning], hmeaning⟩
  · cases p with
    | leaf => rfl
    | node span core? s children =>
      have hs : s.isAggregatingWhere = true := hparts s (mem_parts hp rfl)
      rw [isAggregatingWhere, isAggregating, Bool.or_eq_true, Bool.or_eq_true] at hs
      rcases hs with hs | hs | hs
      · have hwhere : (node span core? s children).isNode .whereClause = true := hs
        rcases meaning_of_search (.inr hwhere) with hmeaning | ⟨s, hmeaning⟩ <;>
          rw [Part.aggregation?, hmeaning]
      · exact absurd (congrArg some (eq_of_beq hs)) fun heq => hshape (beq_iff_eq.mpr heq)
      · have hplain : (node span core? s children).shape?.all isPlainPart = true := hs
        rcases meaning_of_isPlainPart hplain with hmeaning | ⟨e, hmeaning⟩ <;>
          rw [Part.aggregation?, hmeaning]

/-- The stages of a query. -/
theorem Formed.retains_pipeline (h : (node span core? .pipeline ps).Formed) :
    (node span core? .pipeline ps).Retains := by
  refine ⟨_, _, rfl, forall₂_filterMap (fun p hp hshape => ?_) fun p hp hshape => ?_⟩
  · have hstage := shape_of_only h.parts hp
    cases p with
    | leaf => cases hshape
    | node span core? s children => cases s <;> first | exact ⟨_, rfl, rfl⟩ | cases hstage
  · cases p with
    | leaf => rfl
    | node => exact absurd rfl hshape

/-- What every node of a tree that is formed computes, or hands on, is in what it stands for. -/
theorem Formed.retains {p : Placed} (h : p.Formed) : p.Retains := by
  cases p with
  | leaf => trivial
  | node span core? shape ps =>
    cases shape with
    | assignment => exact h.retains_assignment
    | aggregation => exact h.retains_aggregation
    | whereCommand => exact h.retains_where
    | headCommand => exact h.retains_head
    | evalCommand => exact ⟨_, rfl, h.assignments h.parts⟩
    | fieldformatCommand => exact ⟨_, rfl, h.assignments h.parts⟩
    | statsCommand =>
      exact ⟨_, _, _, _, _, rfl,
        h.aggregations (Only.mono h.parts fun _ => isAggregatingWhere_of_isAggregating)⟩
    | tstatsCommand => exact ⟨_, _, _, _, _, rfl, h.aggregations h.parts⟩
    | pipeline => exact h.retains_pipeline
    | _ => trivial

end Placed

/-- **Where nothing is wrong, no operand is lost**: every assignment in the tree stands for one with
its expression, every condition of `where` and `head` and every argument of an aggregation for an
expression, and commands and queries have these in order. The leaves of each expression are the
operands in its tree, from left to right. -/
theorem parseQuery_operands {text : String} {limit : Nat}
    (h : (parseQuery text limit).diagnostics = []) :
    ∀ n ∈ (parseQuery text limit).tree.nodes, n.Retains :=
  fun n hn => ((parseQuery_formed h).of_mem_nodes n hn).retains

/-- An assignment and a condition. -/
theorem parseQuery_operands_sample :
    (parseQuery "| eval a = -(b + 'c d') | where x in (1)" 128).diagnostics = [] ∧
    ∀ n ∈ (parseQuery "| eval a = -(b + 'c d') | where x in (1)" 128).tree.nodes, n.Retains := by
  have h : (parseQuery "| eval a = -(b + 'c d') | where x in (1)" 128).diagnostics = [] := by
    decide +kernel
  exact ⟨h, parseQuery_operands h⟩

end SplQuery
