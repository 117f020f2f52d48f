import SplQuery.Proofs.Fair.Tree

/-!
# Where the parts of a fair tree stand

In a fair tree the core of a node holds the cores of its children, also of a search or a query with
nothing in it, which stands directly beside a lexeme.

* `Placed.Fair` — a placed tree of which all nodes are fair.
* `Placed.Covers` — the core of a tree lies within that of another one.
* `Placed.Fair.within_child` — the core of a child lies within that of its node.
-/

namespace SplQuery

open SplQuery.Tree SplQuery.Span

/-- A node of this shape is a query or a search, in which there may be nothing. -/
def Shape.isOpen : Shape → Bool
  | .pipeline | .searchExpr => true
  | _ => false

theorem Shape.isOpen_of_isExpression (s : Shape) (h : s.isExpression = true) :
    s.isOpen = false := by
  cases s <;> first | rfl | cases h

theorem Shape.isOpen_of_isTerm (s : Shape) (h : s.isTerm = true) : s.isOpen = false := by
  cases s <;> first | rfl | cases h

namespace Placed

/-- The tree is a query or a search, in which there may be nothing. -/
def isOpen (p : Placed) : Bool := p.shape?.any Shape.isOpen

theorem isOpen_of_isNode {p : Placed} {shape : Shape} (h : p.isNode shape = true) :
    p.isOpen = shape.isOpen := by
  rw [isOpen, show p.shape? = some shape from eq_of_beq h]
  rfl

theorem isOpen_of_any {p : Placed} {test : Shape → Bool}
    (htest : ∀ shape, test shape = true → shape.isOpen = false) (h : p.shape?.any test = true) :
    p.isOpen = false := by
  rw [isOpen]
  cases hshape : p.shape? with
  | none => rfl
  | some shape => exact htest shape (by rwa [hshape] at h)

/-- A placed tree of which all nodes are fair, given what has been reported. -/
def Fair (p : Placed) : Prop :=
  ∃ reports start t, p = Tree.place start t ∧ t.Everywhere (Tree.Fair reports) start

/-- The core of a tree lies within that of another one, and both have a lexeme that is no trivia. -/
structure Covers (n p : Placed) : Prop where
  outer : n.core?.isSome = true
  inner : p.core?.isSome = true
  within : p.core.Within n.core

variable {n p q : Placed} {shape : Shape}

theorem Covers.trans (h : n.Covers p) (h' : p.Covers q) : n.Covers q :=
  ⟨h.outer, h'.inner, h'.within.trans h.within⟩

theorem core_of_some {c : Span} (h : p.core? = some c) : p.core = c := by
  rw [core, h]
  rfl

namespace Fair

/-! ## Stretches -/

theorem within_span (h : p.Fair) : p.core.Within p.span := by
  obtain ⟨reports, start, t, rfl, -⟩ := h
  rw [span_place]
  cases hcore : (t.place start).core? with
  | none =>
    rw [core, hcore, span_place]
    exact .refl (Nat.le_add_right _ _)
  | some c =>
    rw [core_of_some hcore]
    exact within_core?_place t start c hcore

/-- The core of a tree starts at or before its end. -/
theorem ordered (h : p.Fair) : p.core.Within p.core := .refl h.within_span.ordered

/-- A child of a node stands between those before and those after it. -/
theorem exists_split (h : n.Fair) (hp : p ∈ n.children) :
    ∃ reports start shape pre t post, n = (Tree.node shape (pre ++ t :: post)).place start ∧
      p = t.place (start + widthAll pre) ∧
      Tree.Fair reports start shape (pre ++ t :: post) ∧
      t.Everywhere (Tree.Fair reports) (start + widthAll pre) := by
  obtain ⟨reports, start, t, rfl, hfair⟩ := h
  cases t with
  | leaf => cases hp
  | node shape children =>
    obtain ⟨pre, t, post, rfl, rfl⟩ := mem_placeAll hp
    exact ⟨reports, start, shape, pre, t, post, rfl, rfl, hfair.1,
      (everywhereAll_append.mp hfair.2).2.1⟩

theorem child (h : n.Fair) (hp : p ∈ n.children) : p.Fair := by
  obtain ⟨reports, start, -, pre, t, -, -, rfl, -, ht⟩ := h.exists_split hp
  exact ⟨reports, start + widthAll pre, t, rfl, ht⟩

theorem span_child (h : n.Fair) (hp : p ∈ n.children) : p.span.Within n.span := by
  obtain ⟨reports, start, shape, pre, t, post, rfl, rfl, -, -⟩ := h.exists_split hp
  rw [span_place, span_place, width_node, widthAll_append, widthAll_cons]
  refine ⟨Nat.le_add_right _ _, Nat.le_add_right _ _, ?_⟩
  change start + widthAll pre + t.width ≤ start + (widthAll pre + (t.width + widthAll post))
  omega

/-! ## Children with a lexeme -/

theorem covers (h : n.Fair) (hp : p ∈ n.children) (hcore : p.core?.isSome = true) : n.Covers p := by
  obtain ⟨c, hc⟩ := Option.isSome_iff_exists.mp hcore
  obtain ⟨reports, start, shape, pre, t, post, rfl, rfl, -, -⟩ := h.exists_split hp
  obtain ⟨d, hd⟩ : ∃ d, ((Tree.node shape (pre ++ t :: post)).place start).core? = some d := by
    rw [isSome_core?_place] at hcore
    rw [← Option.isSome_iff_exists, isSome_core?_place, Tree.leaves, ← hasToken, hasToken_append,
      hasToken_cons, hcore, Bool.true_or, Bool.or_true]
  refine ⟨by rw [hd]; rfl, hcore, ?_⟩
  rw [core_of_some hc, core_of_some hd]
  exact within_coreOfAll pre t post start d hd c hc

theorem solid (h : p.Fair) (hshape : p.isNode shape = true) (hsolid : shape.isSolid = true) :
    p.core?.isSome = true := by
  obtain ⟨reports, start, t, rfl, hfair⟩ := h
  cases t with
  | leaf => cases hshape
  | node shape' children =>
    obtain rfl : shape' = shape := Option.some.inj (eq_of_beq hshape)
    rw [isSome_core?_place]
    exact hfair.1.solid hsolid

theorem covers_solid (h : n.Fair) (hp : p ∈ n.children) (hshape : p.isNode shape = true)
    (hsolid : shape.isSolid = true) : n.Covers p :=
  h.covers hp ((h.child hp).solid hshape hsolid)

theorem within_lexeme (h : n.Fair) {l : Lexeme} (hl : l ∈ n.lexemes) : l.span.Within n.core := by
  obtain ⟨p, hp, hlexeme⟩ := List.mem_filterMap.mp hl
  obtain ⟨reports, start, t, rfl, -⟩ := h.child hp
  cases t with
  | node => cases hlexeme
  | leaf kind text =>
    rw [place, lexeme?] at hlexeme
    split at hlexeme
    · cases hlexeme
    · next hkind =>
      cases hlexeme
      have hcore : ((Tree.leaf kind text).place start).core? =
          some ⟨start, start + text.utf8ByteSize⟩ := by
        rw [place, core?, if_neg hkind]
      have hwithin := (h.covers hp (by rw [hcore]; rfl)).within
      rwa [core_of_some hcore] at hwithin

/-- What gets another name is a part in which there is a lexeme. -/
theorem covers_named (h : n.Fair) (hshape : n.isNode .aliasedField = true)
    (hp : p ∈ n.childNodes.head?) : n.Covers p := by
  have hmem : p ∈ n.children := (List.mem_filter.mp (List.mem_of_mem_head? hp)).1
  refine h.covers hmem ?_
  obtain ⟨reports, start, t, rfl, hfair⟩ := h
  cases t with
  | leaf => cases hshape
  | node shape children =>
    obtain rfl : shape = .aliasedField := Option.some.inj (eq_of_beq hshape)
    obtain ⟨part, inside, rest, rfl, htoken⟩ := hfair.1.named rfl
    obtain rfl : (Tree.node part inside).place start = p := Option.some.inj hp
    rw [isSome_core?_place]
    exact htoken

/-! ## Children with nothing in them -/

/-- What has nothing in it stands within the core of its node, since it stands beside a lexeme. -/
theorem within_void {start : Nat} {pre post : List Tree} {t : Tree}
    (hseated : Seated (pre ++ t :: post)) (hwidth : t.width = 0)
    (hvoid : t.isVoid = true) {d : Span}
    (hd : coreOfAll (placeAll start (pre ++ t :: post)) = some d) :
    Within ⟨start + widthAll pre, start + widthAll pre⟩ d := by
  rcases hseated pre t post rfl hvoid with ⟨us, kind, text, rfl, hkind⟩ |
    ⟨kind, text, hfirst, hkind⟩
  -- after a lexeme: it stands where the core of that lexeme ends
  · have hleaf : ((Tree.leaf kind text).place (start + widthAll us)).core? =
        some ⟨start + widthAll us, start + widthAll us + text.utf8ByteSize⟩ := by
      rw [place, core?, hkind]
      rfl
    rw [List.append_assoc, List.singleton_append] at hd
    have hwithin := within_coreOfAll us (Tree.leaf kind text) (t :: post) start d hd _ hleaf
    have hplace : start + widthAll (us ++ [Tree.leaf kind text]) =
        start + widthAll us + text.utf8ByteSize := by
      rw [widthAll_append, widthAll_cons, width_leaf, widthAll_nil, Nat.add_zero, Nat.add_assoc]
    rw [hplace]
    exact ⟨Nat.le_trans hwithin.start hwithin.ordered, Nat.le_refl _, hwithin.stop⟩
  -- before a lexeme: it takes no bytes, so that lexeme starts where it stands
  · have hplace : start + widthAll (pre ++ [t]) = start + widthAll pre := by
      rw [widthAll_append, widthAll_cons, hwidth]
      rfl
    obtain ⟨c, hc, hstart⟩ := start_of_token_first (start + widthAll (pre ++ [t])) hfirst hkind
    rw [List.append_cons, coreOfAll_placeAll_append] at hd
    have hwithin := (within_joinCores (within_coreOfAll_placeAll (pre ++ [t]) start)
      (within_coreOfAll_placeAll post _) d hd).2 c hc
    rw [← hplace, ← hstart]
    exact ⟨hwithin.start, Nat.le_refl _, Nat.le_trans hwithin.ordered hwithin.stop⟩

/-- A query or a search without a lexeme that is no trivia has nothing in it. -/
theorem isVoid_of_bare {reports : List Diagnostic} {start : Nat} {t : Tree}
    (ht : t.Everywhere (Tree.Fair reports) start) (hcore : (t.place start).core? = none)
    (hopen : (t.place start).isOpen = true) : t.isVoid = true ∧ t.width = 0 := by
  cases t with
  | leaf => cases hopen
  | node shape children =>
    have hshape : shape = .pipeline ∨ shape = .searchExpr := by
      cases shape <;> first | exact .inl rfl | exact .inr rfl | cases hopen
    have hnone : hasToken children = false := by
      rw [← isSome_coreOfAll_placeAll children start]
      exact congrArg Option.isSome hcore
    obtain rfl : children = [] :=
      (ht.1.bare hshape).resolve_left (by rw [hnone]; exact Bool.false_ne_true)
    exact ⟨by rcases hshape with rfl | rfl <;> rfl, rfl⟩

/-- The core of a child lies within that of its node, if there is a lexeme in the child, or the
child is a query or a search. -/
theorem within_child (h : n.Fair) (hp : p ∈ n.children)
    (hwrapped : ∀ shape ∈ n.shape?, shape.isWrapped = false)
    (hsound : p.core?.isSome = true ∨ p.isOpen = true) : p.core.Within n.core := by
  cases hcore : p.core? with
  | some c => exact (h.covers hp (by rw [hcore]; rfl)).within
  | none =>
    cases hnode : n.core? with
    | none =>
      -- without a lexeme the core of the node is all that it covers
      have hspan : n.core = n.span := by rw [core, hnode]; rfl
      rw [hspan]
      exact (h.child hp).within_span.trans (h.span_child hp)
    | some d =>
      have hopen := hsound.resolve_left (by rw [hcore]; exact Bool.false_ne_true)
      obtain ⟨reports, start, shape, pre, t, post, rfl, rfl, hfair, ht⟩ := h.exists_split hp
      obtain ⟨hvoid, hwidth⟩ := isVoid_of_bare ht hcore hopen
      have hplace := within_void (hfair.seated (hwrapped shape rfl)) hwidth hvoid hnode
      rw [core_of_some hnode, core, hcore, Option.getD_none, span_place, hwidth]
      exact hplace

end Fair

end Placed

end SplQuery
