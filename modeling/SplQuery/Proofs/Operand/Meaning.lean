import SplQuery.Proofs.Expression.Meaning
import SplQuery.Proofs.Formed.Query

/-!
# The operands of expressions

An operand is a lexeme that is the name of a field or a value by itself. What an expression in a
tree stands for has the operands of the tree as its leaves, from left to right, where the tree is
formed: an operator then has its operands where they are looked for, and a call its arguments.

* `Placed.operands` — the operands under a tree, from left to right.
* `Expression.leaves` — the fields and values of an expression, from left to right.
* `Placed.Yields` — a tree stands for an expression with its operands.
* `Placed.Formed.yields` — every expression in a tree that is formed does so.
-/

namespace SplQuery

open Placed Shape

/-- A lexeme that is the name of a field, or a value. -/
inductive Operand where
  | field (token : Lexeme)
  | value (token : Lexeme)

/-- What an operand stands for: a field by its name, quotes removed, or a value. -/
def Operand.expression : Operand → Expression
  | .field l => .field ⟨if l.kind = .stringLiteral then Text.unquote l.text else l.text, l.span⟩
  | .value l => Meaning.literalOf l

/-! ## Leaves of expressions -/

namespace Expression

/-- Whether an expression is a field or a value. -/
def isLeaf : Expression → Bool
  | .binary .. | .unary .. | .call .. => false
  | _ => true

/-- The fields and values in an expression, from left to right. -/
def leaves (e : Expression) : List Expression := e.walk.filter isLeaf

variable {op : String} {left right operand : Expression} {arguments : List Expression} {span : Span}

theorem leaves_of_isLeaf {e : Expression} (h : e.isLeaf = true) : e.leaves = [e] := by
  cases e <;> first | rfl | cases h

theorem leaves_binary :
    (Expression.binary op left right span).leaves = left.leaves ++ right.leaves := by
  rw [leaves, walk, List.filter_cons_of_neg Bool.false_ne_true, List.filter_append]
  rfl

theorem leaves_unary : (Expression.unary op operand span).leaves = operand.leaves := by
  rw [leaves, walk, List.filter_cons_of_neg Bool.false_ne_true]
  rfl

theorem leaves_call :
    (Expression.call op arguments span).leaves = arguments.flatMap leaves := by
  rw [leaves, walk, List.filter_cons_of_neg Bool.false_ne_true]
  induction arguments with
  | nil => rfl
  | cons e es ih => rw [walkAll, List.filter_append, ih, List.flatMap_cons, leaves]

end Expression

/-! ## Operands of trees -/

namespace Placed

/-- The operands directly under a node. -/
def ownOperands (p : Placed) : List Operand :=
  match p.shape? with
  | some .fieldRef => p.lexemes.map .field
  | some .literal => p.lexemes.map .value
  | _ => []

/-- The operands under a tree, from left to right. -/
def operands (p : Placed) : List Operand := p.nodes.flatMap ownOperands

/-- The children that are expressions. -/
def expressionNodes (p : Placed) : List Placed :=
  p.children.filter (·.shape?.any Shape.isExpression)

/-- A tree stands for an expression that has the operands of the tree as its leaves. -/
structure Yields (p : Placed) (e : Expression) : Prop where
  meaning : p.meaning = .expression e
  leaves : e.leaves = p.operands.map Operand.expression

/-- The arguments of a call stand for as many expressions, with the operands of all of them. -/
structure YieldsAll (p : Placed) (es : List Expression) : Prop where
  meaning : p.meaning = .expressions es
  each : List.Forall₂ Yields p.expressionNodes es
  leaves : es.flatMap Expression.leaves = p.operands.map Operand.expression

variable {span : Span} {core? : Option Span} {shape : Shape} {ps : List Placed}

theorem operands_node : (node span core? shape ps).operands =
    (node span core? shape ps).ownOperands ++ ps.flatMap operands := by
  have hall : (nodesOfAll ps).flatMap ownOperands = ps.flatMap operands := by
    induction ps with
    | nil => rfl
    | cons p ps ih => rw [nodesOfAll, List.flatMap_append, ih, List.flatMap_cons, operands]
  rw [operands, nodes, List.flatMap_cons, hall]

/-- Where only nodes of a class are under a node the operands are under them. -/
theorem flatMap_operands {member : Shape → Bool} (h : Only member (content ps).parts) :
    ps.flatMap operands = (ps.filter (·.shape?.any member)).flatMap operands := by
  have hrest : ∀ p ∈ ps, ¬ p.shape?.any member = true → p.operands = [] := by
    intro p hp hno
    cases p with
    | leaf => rfl
    | node span core? shape children => exact absurd (h shape (mem_parts hp rfl)) hno
  clear h
  induction ps with
  | nil => rfl
  | cons p ps ih =>
    obtain ⟨hp, hps⟩ := List.forall_mem_cons.mp hrest
    rw [List.flatMap_cons, ih hps, List.filter_cons]
    split
    · rw [List.flatMap_cons]
    · next hno => rw [hp hno, List.nil_append]

/-! ### Lexemes by themselves -/

/-- Where there are no lexemes and no nodes there is no core. -/
theorem coreOfAll_of_none (hshapes : ps.filterMap shape? = [])
    (hlexemes : ps.filterMap lexeme? = []) : coreOfAll ps = none := by
  induction ps with
  | nil => rfl
  | cons p ps ih =>
    obtain ⟨hshape, hshapes'⟩ := List.forall_mem_cons.mp (List.filterMap_eq_nil_iff.mp hshapes)
    obtain ⟨hlexeme, hlexemes'⟩ := List.forall_mem_cons.mp (List.filterMap_eq_nil_iff.mp hlexemes)
    cases p with
    | node => cases hshape
    | leaf span kind text =>
      have hkind : kind.isTrivia = true := by
        by_contra hno
        rw [lexeme?, if_neg hno] at hlexeme
        cases hlexeme
      rw [coreOfAll_cons, core?, if_pos hkind, ih (List.filterMap_eq_nil_iff.mpr hshapes')
        (List.filterMap_eq_nil_iff.mpr hlexemes')]
      rfl

/-- The core of a node with one lexeme is that of the lexeme. -/
theorem coreOfAll_of_lexeme {l : Lexeme} (hformed : ∀ p ∈ ps, p.Formed)
    (hshapes : ps.filterMap shape? = []) (hlexemes : ps.filterMap lexeme? = [l]) :
    coreOfAll ps = some l.span := by
  induction ps with
  | nil => cases hlexemes
  | cons p ps ih =>
    obtain ⟨hp, hps⟩ := List.forall_mem_cons.mp hformed
    cases p with
    | node => cases hshapes
    | leaf span kind text =>
      have hrest : ps.filterMap shape? = [] := hshapes
      rw [List.filterMap_cons, lexeme?] at hlexemes
      rw [coreOfAll_cons, core?]
      cases hkind : kind.isTrivia with
      | true =>
        rw [hkind] at hlexemes
        rw [if_pos rfl, ih hps hrest hlexemes]
        rfl
      | false =>
        rw [hkind] at hlexemes
        obtain ⟨rfl, hnone⟩ := List.cons.inj hlexemes
        rw [if_neg Bool.false_ne_true, coreOfAll_of_none hrest hnone]
        have hspan : span.stop = span.start + text.utf8ByteSize := hp
        exact congrArg (fun stop => some (Span.mk span.start stop)) hspan

/-! ### Parts that are expressions -/

section Parts

variable {l : List Placed} {es : List Expression}

theorem expressionParts_eq_map (ps : List Placed) : Meaning.expressionParts (partsOfAll ps) =
    (ps.filter (·.shape?.any Shape.isExpression)).map fun p => ⟨p, p.meaning⟩ := by
  rw [Meaning.expressionParts, partsOfAll_eq_map, List.filter_map]
  rfl

theorem exists_yields (h : ∀ p ∈ l, ∃ e, p.Yields e) : ∃ es, List.Forall₂ Yields l es := by
  induction l with
  | nil => exact ⟨[], .nil⟩
  | cons p l ih =>
    obtain ⟨⟨e, he⟩, hl⟩ := List.forall_mem_cons.mp h
    obtain ⟨es, hes⟩ := ih hl
    exact ⟨e :: es, .cons he hes⟩

theorem leaves_of_yields (h : List.Forall₂ Yields l es) :
    es.flatMap Expression.leaves = (l.flatMap operands).map Operand.expression := by
  induction h with
  | nil => rfl
  | cons he _ ih => rw [List.flatMap_cons, List.flatMap_cons, List.map_append, ← he.leaves, ih]

theorem expression?_of_yields {p : Placed} {e : Expression} (h : p.Yields e) :
    (Part.mk p p.meaning).expression? = some e := by
  rw [Part.expression?, h.meaning]

theorem filterMap_expression?_of_yields (h : List.Forall₂ Yields l es) :
    (l.map fun p => Part.mk p p.meaning).filterMap (·.expression?) = es := by
  induction h with
  | nil => rfl
  | cons he _ ih => rw [List.map_cons, List.filterMap_cons_some (expression?_of_yields he), ih]

end Parts

/-! ### Nodes that are expressions -/

section Nodes

variable {es : List Expression}

theorem exists_firstLexeme? (h : (content ps).words ≠ []) :
    ∃ l, (node span core? shape ps).firstLexeme? = some l := by
  rw [firstLexeme?, lexemes, Placed.children]
  cases hlexemes : ps.filterMap lexeme? with
  | nil =>
    refine absurd ?_ h
    rw [content, hlexemes]
    rfl
  | cons l ls => exact ⟨l, rfl⟩

/-- What is made of all expressions under a node has the operands under it. -/
theorem leaves_of_parts (hes : List.Forall₂ Yields (ps.filter (·.shape?.any isExpression)) es)
    (hparts : Only isExpression (content ps).parts)
    (hown : (node span core? shape ps).ownOperands = []) :
    es.flatMap Expression.leaves =
      (node span core? shape ps).operands.map Operand.expression := by
  rw [leaves_of_yields hes, operands_node, hown, flatMap_operands hparts, List.nil_append]

theorem arguments_of_parts (hes : List.Forall₂ Yields (ps.filter (·.shape?.any isExpression)) es) :
    Meaning.arguments (partsOfAll ps) = es := by
  rw [Meaning.arguments, expressionParts_eq_map, filterMap_expression?_of_yields hes]

/-- The only expression under a node. -/
theorem firstExpression?_of_countP
    (hes : List.Forall₂ Yields (ps.filter (·.shape?.any isExpression)) es)
    (hcount : (content ps).parts.countP isExpression = 1) :
    ∃ p e, ps.filter (·.shape?.any isExpression) = [p] ∧ es = [e] ∧ p.Yields e ∧
      Meaning.firstExpression? (partsOfAll ps) = some e := by
  rw [countP_parts] at hcount
  obtain ⟨p, hp⟩ := List.length_eq_one_iff.mp hcount
  rw [hp] at hes
  obtain _ | ⟨he, _ | _⟩ := hes
  refine ⟨p, _, hp, rfl, he, ?_⟩
  rw [Meaning.firstExpression?, expressionParts_eq_map, hp]
  exact expression?_of_yields he

theorem countP_of_one {shapes : List Shape} (h : One isExpression shapes) :
    shapes.countP isExpression = 1 := by
  obtain ⟨s, hs, rfl⟩ := h
  rw [List.countP_singleton, if_pos hs]

/-- An operator has two operands. -/
theorem Formed.yields_binary (h : (node span core? .binaryExpr ps).Formed)
    (hes : List.Forall₂ Yields (ps.filter (·.shape?.any isExpression)) es) :
    ∃ e, (node span core? .binaryExpr ps).Yields e := by
  obtain ⟨op, hop⟩ : ∃ l, (node span core? .binaryExpr ps).firstLexeme? = some l :=
    exists_firstLexeme? h.words
  obtain ⟨left, right, hleft, hright, hparts⟩ := h.parts
  have hcount : (ps.filter (·.shape?.any isExpression)).length = 2 := by
    rw [← countP_parts, hparts, List.countP_append, countP_of_one hleft, countP_of_one hright]
  have honly : Only isExpression (content ps).parts :=
    hparts ▸ only_append.mpr ⟨hleft.only, hright.only⟩
  have hleaves : es.flatMap Expression.leaves =
      (node span core? .binaryExpr ps).operands.map Operand.expression :=
    leaves_of_parts hes honly rfl
  -- the two operands are looked for by their places among the expressions
  obtain ⟨a, b, hab⟩ := List.length_eq_two.mp hcount
  rw [hab] at hes
  obtain _ | ⟨ha, _ | ⟨hb, _ | _⟩⟩ := hes
  rename_i left right
  refine ⟨.binary (Meaning.operatorName op) left right (node span core? .binaryExpr ps).core,
    Expression.meaning_of_expression? rfl ?_, ?_⟩
  · have hfirst :
        (Meaning.expressionParts (partsOfAll ps))[0]?.bind (·.expression?) = some left := by
      rw [expressionParts_eq_map, hab]
      exact expression?_of_yields ha
    have hsecond :
        (Meaning.expressionParts (partsOfAll ps))[1]?.bind (·.expression?) = some right := by
      rw [expressionParts_eq_map, hab]
      exact expression?_of_yields hb
    rw [Meaning.expression?, Meaning.binary, hop]
    simp only [hfirst, hsecond]
    rfl
  · rw [Expression.leaves_binary, ← hleaves, List.flatMap_cons, List.flatMap_singleton]

/-- A sign has one operand. -/
theorem Formed.yields_unary (h : (node span core? .unaryExpr ps).Formed)
    (hes : List.Forall₂ Yields (ps.filter (·.shape?.any isExpression)) es) :
    ∃ e, (node span core? .unaryExpr ps).Yields e := by
  obtain ⟨op, hop⟩ : ∃ l, (node span core? .unaryExpr ps).firstLexeme? = some l :=
    exists_firstLexeme? h.words
  have hone : One isExpression (content ps).parts := h.parts
  obtain ⟨-, e, -, rfl, -, he⟩ := firstExpression?_of_countP hes (countP_of_one hone)
  have hleaves : [e].flatMap Expression.leaves =
      (node span core? .unaryExpr ps).operands.map Operand.expression :=
    leaves_of_parts hes hone.only rfl
  refine ⟨.unary (Meaning.operatorName op) e (node span core? .unaryExpr ps).core,
    Expression.meaning_of_expression? rfl ?_, ?_⟩
  · rw [Meaning.expression?, Meaning.unary, hop, he]
    rfl
  · rw [Expression.leaves_unary, ← hleaves, List.flatMap_singleton]

/-- Parentheses leave no trace. -/
theorem Formed.yields_paren (h : (node span core? .parenExpr ps).Formed)
    (hes : List.Forall₂ Yields (ps.filter (·.shape?.any isExpression)) es) :
    ∃ e, (node span core? .parenExpr ps).Yields e := by
  have hone : One isExpression (content ps).parts := h.parts
  obtain ⟨-, e, -, rfl, -, he⟩ := firstExpression?_of_countP hes (countP_of_one hone)
  have hleaves : [e].flatMap Expression.leaves =
      (node span core? .parenExpr ps).operands.map Operand.expression :=
    leaves_of_parts hes hone.only rfl
  refine ⟨e, Expression.meaning_of_expression? rfl he, ?_⟩
  rw [← hleaves, List.flatMap_singleton]

/-- A list of values stands for a call. -/
theorem Formed.yields_inList (h : (node span core? .inList ps).Formed)
    (hes : List.Forall₂ Yields (ps.filter (·.shape?.any isExpression)) es) :
    ∃ e, (node span core? .inList ps).Yields e := by
  have hleaves : es.flatMap Expression.leaves =
      (node span core? .inList ps).operands.map Operand.expression :=
    leaves_of_parts hes h.parts rfl
  refine ⟨.call "in" es (node span core? .inList ps).core,
    Expression.meaning_of_expression? rfl ?_, ?_⟩
  · rw [Meaning.expression?, arguments_of_parts hes]
  · rw [Expression.leaves_call, hleaves]

/-- A call has the arguments between its parentheses. -/
theorem Formed.yields_call (h : (node span core? .callExpr ps).Formed)
    (hlists : ∀ p ∈ ps, p.isNode .argList = true → ∃ es, p.YieldsAll es) :
    ∃ e, (node span core? .callExpr ps).Yields e := by
  obtain ⟨name, hname⟩ : ∃ l, (node span core? .callExpr ps).firstLexeme? = some l :=
    exists_firstLexeme? h.words
  have hone : One (· == .argList) (content ps).parts := h.parts
  have hcount : (ps.filter (·.isNode .argList)).length = 1 := by
    obtain ⟨s, hs, hparts⟩ := hone
    simp only [isNode_eq_any, ← countP_parts, hparts, List.countP_singleton, if_pos hs]
  obtain ⟨list, hlist⟩ := List.length_eq_one_iff.mp hcount
  have hmem : list ∈ ps.filter (·.isNode .argList) := hlist ▸ List.mem_singleton_self list
  obtain ⟨es, hes⟩ := hlists list (List.mem_filter.mp hmem).1 (List.mem_filter.mp hmem).2
  have hfind : ps.find? (·.isNode .argList) = some list := by
    rw [← List.head?_filter, hlist, List.head?_cons]
  refine ⟨.call name.text.toLower es (node span core? .callExpr ps).core,
    Expression.meaning_of_expression? rfl ?_, ?_⟩
  · rw [Meaning.expression?, Meaning.call, hname, Meaning.part?_eq_map, hfind]
    change some (Expression.call _ (Part.expressions ⟨list, list.meaning⟩) _) = _
    rw [Part.expressions, hes.meaning]
  · have hoperands : ps.flatMap operands = list.operands := by
      simp only [flatMap_operands hone.only, ← isNode_eq_any, hlist, List.flatMap_singleton]
    rw [Expression.leaves_call, hes.leaves, operands_node, hoperands]
    rfl

/-- An operand stands for itself. -/
theorem Formed.yields_operand (h : (node span core? shape ps).Formed)
    (hshape : shape = .fieldRef ∨ shape = .literal) :
    ∃ e, (node span core? shape ps).Yields e := by
  obtain ⟨hwords, hshapes⟩ : (∃ k, (content ps).words = [k]) ∧ ps.filterMap shape? = [] := by
    rcases hshape with rfl | rfl <;> exact ⟨h.words, h.parts⟩
  obtain ⟨k, hk⟩ := hwords
  obtain ⟨l, hl, -⟩ := List.map_eq_singleton_iff.mp hk
  have hfirst : (node span core? shape ps).firstLexeme? = some l := congrArg List.head? hl
  have hbelow : ps.flatMap operands = [] := by
    refine List.flatMap_eq_nil_iff.mpr fun p hp => ?_
    cases p with
    | leaf => rfl
    | node => exact nomatch List.filterMap_eq_nil_iff.mp hshapes _ hp
  rcases hshape with rfl | rfl
  · have hcore : (node span core? .fieldRef ps).core = l.span := by
      rw [Placed.core, Placed.core?, h.core, coreOfAll_of_lexeme h.children hshapes hl]
      rfl
    refine ⟨(Operand.field l).expression, Expression.meaning_of_expression? rfl ?_, ?_⟩
    · rw [Meaning.expression?, Meaning.field, hfirst, hcore]
      rfl
    · rw [operands_node, hbelow, List.append_nil, ownOperands]
      change _ = ((ps.filterMap lexeme?).map Operand.field).map Operand.expression
      rw [hl]
      rfl
  · refine ⟨(Operand.value l).expression, Expression.meaning_of_expression? rfl ?_, ?_⟩
    · rw [Meaning.expression?, hfirst]
      rfl
    · have hleaf : (Operand.value l).expression.isLeaf = true := by
        rw [Operand.expression, Meaning.literalOf]
        split <;> rfl
      rw [Expression.leaves_of_isLeaf hleaf, operands_node, hbelow, List.append_nil, ownOperands]
      change _ = ((ps.filterMap lexeme?).map Operand.value).map Operand.expression
      rw [hl]
      rfl

end Nodes

/-- Every expression in a tree that is formed stands for one with its operands, and so do the
arguments of a call. -/
theorem Formed.yields_both {p : Placed} (h : p.Formed) :
    (p.shape?.any isExpression = true → ∃ e, p.Yields e) ∧
      (p.isNode .argList = true → ∃ es, p.YieldsAll es) := by
  refine h.rec_nodes (motive := fun p => (p.shape?.any isExpression = true → ∃ e, p.Yields e) ∧
      (p.isNode .argList = true → ∃ es, p.YieldsAll es))
    (fun _ _ _ => ⟨nofun, nofun⟩) fun span core? shape ps h ih => ?_
  -- a call goes through its list of arguments, so both are shown by one induction
  obtain ⟨es, hes⟩ : ∃ es, List.Forall₂ Yields (ps.filter (·.shape?.any isExpression)) es :=
    exists_yields fun p hp => (ih p (List.mem_filter.mp hp).1).1 (List.mem_filter.mp hp).2
  refine ⟨fun hshape => ?_, fun hlist => ?_⟩
  · cases shape with
    | binaryExpr => exact h.yields_binary hes
    | unaryExpr => exact h.yields_unary hes
    | parenExpr => exact h.yields_paren hes
    | inList => exact h.yields_inList hes
    | callExpr => exact h.yields_call fun p hp => (ih p hp).2
    | fieldRef => exact h.yields_operand (.inl rfl)
    | literal => exact h.yields_operand (.inr rfl)
    | _ => cases hshape
  · obtain rfl := Option.some.inj (eq_of_beq hlist)
    exact ⟨es, congrArg Meaning.expressions (arguments_of_parts hes), hes,
      leaves_of_parts hes h.parts rfl⟩

theorem Formed.yields {p : Placed} (h : p.Formed) (hshape : p.shape?.any isExpression = true) :
    ∃ e, p.Yields e :=
  h.yields_both.1 hshape

theorem Formed.yieldsAll {p : Placed} (h : p.Formed) (hshape : p.isNode .argList = true) :
    ∃ es, p.YieldsAll es :=
  h.yields_both.2 hshape

/-- All expressions under a node stand for some. -/
theorem Formed.yields_parts (h : (node span core? shape ps).Formed) :
    ∃ es, List.Forall₂ Yields (ps.filter (·.shape?.any isExpression)) es :=
  exists_yields fun p hp =>
    (h.children p (List.mem_filter.mp hp).1).yields (List.mem_filter.mp hp).2

end Placed

end SplQuery
