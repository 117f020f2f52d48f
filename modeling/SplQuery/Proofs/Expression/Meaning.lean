import SplQuery.Proofs.Expression.Written
import SplQuery.Proofs.Reading.Meaning

/-!
# What the trees of expressions mean

The tree of an expression that is written means that expression, but for the places of its parts.
Parentheses are gone: a tree between them means what it means without them.

* `Means` — a tree means an expression, wherever it is placed and whatever trivia is in it.
* `Means.of_writable` — the tree of an expression means it.
-/

namespace SplQuery

open Meaning Placed

namespace Expression

/-- A node of an expression that means an expression, but for places, wherever it stands. -/
structure Means (T : Tree) (e : Expression) : Prop where
  node : ∃ shape ts, T = .node shape ts ∧ shape.isExpression = true
  meaning : ∀ p : Placed, p.bare = [T] →
    ∃ e', p.meaning = .expression e' ∧ e'.unplaced = e.unplaced

variable {T L R : Tree} {e l r : Expression} {k : Kind} {w : String} {p : Placed}
  {span : Span} {core? : Option Span} {shape : Shape} {ps : List Placed}

/-- As a part of a node, such a tree is an expression and no lexeme. -/
theorem Means.part (h : Means T e) (hp : p.bare = [T]) :
    (p.shape?.any Shape.isExpression) = true ∧ p.lexeme? = none ∧
      ∃ e', p.meaning = .expression e' ∧ e'.unplaced = e.unplaced := by
  obtain ⟨shape, ts, rfl, hshape⟩ := h.node
  obtain ⟨span, core?, children, qs, rfl, -, -⟩ := node_of_bare hp
  exact ⟨hshape, rfl, h.meaning _ hp⟩

/-- A node of an expression means what is made of its parts. -/
theorem meaning_of_expression? (hshape : shape.isExpression = true)
    (h : Meaning.expression? (.node span core? shape ps) (partsOfAll ps) shape = some e) :
    (Placed.node span core? shape ps).meaning = .expression e := by
  rw [Placed.meaning, Meaning.ofNode]
  · rw [if_pos hshape, h]
    rfl
  all_goals
    rintro rfl
    cases hshape

/-! ## Views of a node -/

/-- An expression among the children of a node is one of its operands. -/
theorem expressionParts_cons (h : p.shape?.any Shape.isExpression = true) :
    expressionParts (partsOfAll (p :: ps)) =
      ⟨p, p.meaning⟩ :: expressionParts (partsOfAll ps) :=
  List.filter_cons_of_pos h

/-- A lexeme among the children of a node is no operand of it. -/
theorem expressionParts_leaf :
    expressionParts (partsOfAll (.leaf span k w :: ps)) = expressionParts (partsOfAll ps) :=
  List.filter_cons_of_neg Bool.false_ne_true

/-! ## Operators -/

theorem means_binary {op : String} {place : Span}
    (hname : (if k.isKeyword then op.toLower else op) = op) (hL : Means L l) (hR : Means R r) :
    Means (.node .binaryExpr [L, .leaf k op, R]) (.binary op l r place) := by
  refine ⟨⟨_, _, rfl, rfl⟩, fun p hp => ?_⟩
  obtain ⟨span, core?, ps, qs, rfl, hsolid, hqs⟩ := node_of_bare hp
  obtain _ | @⟨a, _, _, _, ha, _ | @⟨b, _, _, _, hb, _ | @⟨c, _, _, _, hc, _ | _⟩⟩⟩ := hqs
  obtain ⟨⟨opSpan, rfl⟩, hk⟩ := leaf_of_bare hb
  obtain ⟨hashape, halexeme, l', hl, hl'⟩ := hL.part ha
  obtain ⟨hcshape, -, r', hr, hr'⟩ := hR.part hc
  have hfirst : (Placed.node span core? .binaryExpr ps).firstLexeme? =
      some ⟨k, opSpan.start, op⟩ := by
    rw [firstLexeme?, lexemes_eq, hsolid, List.filterMap_cons_none halexeme, List.filterMap_cons,
      lexeme?, if_neg (by rw [hk]; exact Bool.false_ne_true)]
    rfl
  have hoperands : expressionParts (partsOfAll ps) = [⟨a, a.meaning⟩, ⟨c, c.meaning⟩] := by
    rw [expressionParts_eq, hsolid, expressionParts_cons hashape, expressionParts_leaf,
      expressionParts_cons hcshape]
    rfl
  refine ⟨.binary op l' r' (Placed.node span core? .binaryExpr ps).core,
    meaning_of_expression? rfl ?_, ?_⟩
  · rw [Meaning.expression?, Meaning.binary, hfirst, hoperands, hl, hr]
    exact congrArg (fun name => some (Expression.binary name l' r' _)) hname
  · rw [unplaced, unplaced, hl', hr']

theorem means_unary {op : String} {place : Span}
    (hname : (if k.isKeyword then op.toLower else op) = op) (h : Means T e) :
    Means (.node .unaryExpr [.leaf k op, T]) (.unary op e place) := by
  refine ⟨⟨_, _, rfl, rfl⟩, fun p hp => ?_⟩
  obtain ⟨span, core?, ps, qs, rfl, hsolid, hqs⟩ := node_of_bare hp
  obtain _ | @⟨b, _, _, _, hb, _ | @⟨c, _, _, _, hc, _ | _⟩⟩ := hqs
  obtain ⟨⟨opSpan, rfl⟩, hk⟩ := leaf_of_bare hb
  obtain ⟨hshape, -, e', he, he'⟩ := h.part hc
  have hoperand : firstExpression? (partsOfAll ps) = some e' := by
    rw [firstExpression?, expressionParts_eq, hsolid, expressionParts_leaf,
      expressionParts_cons hshape, he]
    rfl
  refine ⟨.unary op e' (Placed.node span core? .unaryExpr ps).core,
    meaning_of_expression? rfl ?_, ?_⟩
  · rw [Meaning.expression?, Meaning.unary, firstLexeme?_of_leaf hk hsolid, hoperand]
    exact congrArg (fun name => some (Expression.unary name e' _)) hname
  · rw [unplaced, unplaced, he']

/-! ## Parentheses and calls -/

/-- Parentheses leave no trace. -/
theorem means_parens (h : Means T e) :
    Means (.node .parenExpr [.leaf .lparen "(", T, .leaf .rparen ")"]) e := by
  refine ⟨⟨_, _, rfl, rfl⟩, fun p hp => ?_⟩
  obtain ⟨span, core?, ps, qs, rfl, hsolid, hqs⟩ := node_of_bare hp
  obtain _ | @⟨a, _, _, _, ha, _ | @⟨b, _, _, _, hb, _⟩⟩ := hqs
  obtain ⟨⟨_, rfl⟩, -⟩ := leaf_of_bare ha
  obtain ⟨hshape, -, e', he, he'⟩ := h.part hb
  refine ⟨e', meaning_of_expression? rfl ?_, he'⟩
  rw [Meaning.expression?, firstExpression?, expressionParts_eq, hsolid, expressionParts_leaf,
    expressionParts_cons hshape, he]
  rfl

theorem means_parenthesizedTree {needed : Bool} (h : Means T e) :
    Means (parenthesizedTree needed T) e := by
  cases needed
  · exact h
  · exact means_parens h

theorem arguments_cons (h : Means T e) (hp : p.bare = [T]) :
    ∃ e', Meaning.arguments (partsOfAll (p :: ps)) = e' :: Meaning.arguments (partsOfAll ps) ∧
      e'.unplaced = e.unplaced := by
  obtain ⟨hshape, -, e', he, he'⟩ := h.part hp
  refine ⟨e', ?_, he'⟩
  rw [Meaning.arguments, expressionParts_cons hshape, he]
  rfl

theorem arguments_leaf :
    Meaning.arguments (partsOfAll (.leaf span k w :: ps)) = Meaning.arguments (partsOfAll ps) := by
  rw [Meaning.arguments, expressionParts_leaf, Meaning.arguments]

/-- The arguments of a call are what the trees between its commas mean. -/
theorem arguments_of_trees {es : List Expression} (h : ∀ e ∈ es, Means (e.tree 0) e)
    (hps : List.Forall₂ (fun p t => p.bare = [t]) ps
      (argumentTrees es ++ [.leaf .rparen ")"])) :
    unplacedAll (Meaning.arguments (partsOfAll ps)) = unplacedAll es := by
  induction es generalizing ps with
  | nil =>
    obtain _ | @⟨a, _, _, _, ha, _ | _⟩ := hps
    obtain ⟨⟨_, rfl⟩, -⟩ := leaf_of_bare ha
    rfl
  | cons e es ih =>
    obtain ⟨he, hes⟩ := List.forall_mem_cons.mp h
    cases es with
    | nil =>
      obtain _ | @⟨a, _, _, _, ha, _ | @⟨b, _, _, _, hb, _ | _⟩⟩ := hps
      obtain ⟨⟨_, rfl⟩, -⟩ := leaf_of_bare hb
      obtain ⟨e', hparts, he'⟩ := arguments_cons he ha
      rw [hparts, unplacedAll, unplacedAll, he']
      rfl
    | cons d ds =>
      rw [argumentTrees_cons_cons] at hps
      obtain _ | @⟨a, _, _, _, ha, _ | @⟨b, _, _, _, hb, hps⟩⟩ := hps
      obtain ⟨⟨_, rfl⟩, -⟩ := leaf_of_bare hb
      obtain ⟨e', hparts, he'⟩ := arguments_cons he ha
      rw [hparts, arguments_leaf, unplacedAll, he', ih hes hps, ← unplacedAll]

theorem means_call {f : String} {es : List Expression} {place : Span} (hlower : f.toLower = f)
    (h : ∀ e ∈ es, Means (e.tree 0) e) :
    Means (.node .callExpr [.leaf .identifier f,
      .node .argList (.leaf .lparen "(" :: (argumentTrees es ++ [.leaf .rparen ")"]))])
      (.call f es place) := by
  refine ⟨⟨_, _, rfl, rfl⟩, fun p hp => ?_⟩
  obtain ⟨span, core?, ps, qs, rfl, hsolid, hqs⟩ := node_of_bare hp
  obtain _ | @⟨a, _, _, _, ha, _ | @⟨b, _, _, _, hb, _ | _⟩⟩ := hqs
  obtain ⟨⟨nameSpan, rfl⟩, hk⟩ := leaf_of_bare ha
  obtain ⟨listSpan, listCore?, list, qs, rfl, hlist, hqs⟩ := node_of_bare hb
  obtain _ | @⟨c, _, _, _, hc, hqs⟩ := hqs
  obtain ⟨⟨_, rfl⟩, -⟩ := leaf_of_bare hc
  have hmeaning : (Placed.node listSpan listCore? .argList list).meaning =
      .expressions (Meaning.arguments (partsOfAll list)) := by
    rw [Placed.meaning, Meaning.ofNode]
  have harguments : unplacedAll (Meaning.arguments (partsOfAll list)) = unplacedAll es := by
    rw [Meaning.arguments, expressionParts_eq, hlist, ← Meaning.arguments, arguments_leaf]
    exact arguments_of_trees h hqs
  have hpart : (part? .argList (partsOfAll ps)).elim [] (·.expressions) =
      Meaning.arguments (partsOfAll list) := by
    rw [part?_eq, hsolid, partsOfAll, partsOfAll, hmeaning]
    rfl
  refine ⟨.call f (Meaning.arguments (partsOfAll list))
    (Placed.node span core? .callExpr ps).core, meaning_of_expression? rfl ?_, ?_⟩
  · rw [Meaning.expression?, Meaning.call, firstLexeme?_of_leaf hk hsolid, hpart]
    exact congrArg (fun name => some (Expression.call name _ _)) hlower
  · rw [unplaced, unplaced, harguments]

/-! ## Fields and values -/

theorem means_field {ref : FieldRef} :
    Means (.node .fieldRef [.leaf .identifier ref.name]) (.field ref) := by
  refine ⟨⟨_, _, rfl, rfl⟩, fun p hp => ?_⟩
  obtain ⟨span, core?, ps, qs, rfl, hsolid, hqs⟩ := node_of_bare hp
  obtain _ | @⟨a, _, _, _, ha, _ | _⟩ := hqs
  obtain ⟨⟨nameSpan, rfl⟩, hk⟩ := leaf_of_bare ha
  refine ⟨.field ⟨ref.name, (Placed.node span core? .fieldRef ps).core⟩,
    meaning_of_expression? rfl ?_, rfl⟩
  rw [Meaning.expression?, Meaning.field, firstLexeme?_of_leaf hk hsolid]
  rfl

/-- A lexeme alone in the node of a literal is read as a value. -/
theorem means_literal
    (h : ∀ start, (literalOf ⟨k, start, w⟩).unplaced = e.unplaced) :
    Means (.node .literal [.leaf k w]) e := by
  refine ⟨⟨_, _, rfl, rfl⟩, fun p hp => ?_⟩
  obtain ⟨span, core?, ps, qs, rfl, hsolid, hqs⟩ := node_of_bare hp
  obtain _ | @⟨a, _, _, _, ha, _ | _⟩ := hqs
  obtain ⟨⟨place, rfl⟩, hk⟩ := leaf_of_bare ha
  refine ⟨literalOf ⟨k, place.start, w⟩, meaning_of_expression? rfl ?_, h place.start⟩
  rw [Meaning.expression?, firstLexeme?_of_leaf hk hsolid]
  rfl

/-! ## All expressions -/

/-- The tree of an expression that is written means that expression. -/
theorem Means.of_writable (h : Writable e) (least : Nat) : Means (e.tree least) e := by
  induction h generalizing least with
  | field => exact means_field
  | string =>
    exact means_literal fun _ => congrArg (Expression.string · default)
      (Text.unquote_quote (.inl rfl) _)
  | number => exact means_literal fun _ => rfl
  | @boolean value _ =>
    have hvalue : Text.sameName (if value then "true" else "false") "true" = value := by
      cases value <;> decide +kernel
    exact means_literal fun _ => congrArg (Expression.boolean · default) hvalue
  | time => exact means_literal fun _ => rfl
  | call _ hlower _ ih =>
    rw [tree]
    exact means_call hlower fun e he => ih e he 0
  | unary hop _ ih =>
    rw [tree]
    exact means_unary (isSign_of_mem hop).2.2 (ih _)
  | binary hop _ _ ihl ihr =>
    rw [tree]
    exact means_parenthesizedTree (means_binary (isOperator_of_mem hop).name (ihl _) (ihr _))

end Expression

end SplQuery
