import SplQuery.Proofs.Fair.Placed
import SplQuery.Proofs.Query.Within

/-!
# Where what expressions and searches mean stands

What a node stands for lies within the core of the node: its operands, arguments and terms are what
children of the node stand for, and these lie within the cores of the children.

* `Meaning.Lies` — what a node stands for lies within a stretch.
* `Part.Fits` — a child of which this is known; `Part.Fits.expression`, … — what it stands for.
* `Meaning.expression?_lies`, `Meaning.term?_lies` — expressions and terms.
-/

namespace SplQuery

open SplQuery.Span

namespace Meaning

/-- What a node stands for lies within a stretch. -/
def Lies (outer : Span) : Meaning → Prop
  | .nothing => True
  | .expression e => e.Lies outer
  | .expressions es => ∀ e ∈ es, e.Lies outer
  | .term t => t.Lies outer
  | .search s => s.Lies outer
  | .assignment a => a.Lies outer
  | .aggregation a => a.Lies outer
  | .command c => c.Lies outer
  | .pipeline p => p.Lies outer

/-- Whether a node stands for nothing that has a place. -/
def isBlank : Meaning → Bool
  | .nothing | .expressions [] => true
  | _ => false

end Meaning

/-- What the part stands for lies within its core, which lies within a stretch unless there is
nothing that has a place. -/
structure Part.Fits (outer : Span) (part : Part) : Prop where
  lies : part.meaning.Lies part.tree.core
  within : part.meaning.isBlank = false → part.tree.core.Within outer

/-! ## What a part stands for -/

namespace Part.Fits

variable {outer : Span} {part : Part} (h : part.Fits outer)

include h

theorem expression : ∀ e ∈ part.expression?, e.Lies outer := by
  obtain ⟨tree, meaning⟩ := part
  rintro e he
  cases meaning with
  | expression e' =>
    obtain rfl : e' = e := Option.some.inj he
    exact Expression.Lies.mono h.lies (h.within rfl)
  | _ => cases he

theorem expressions : ∀ e ∈ part.expressions, e.Lies outer := by
  obtain ⟨tree, meaning⟩ := part
  rintro e he
  cases meaning with
  | expressions es =>
    have hblank : (Meaning.expressions es).isBlank = false := by
      cases es with
      | nil => cases he
      | cons => rfl
    exact (h.lies e he).mono (h.within hblank)
  | _ => cases he

theorem term : ∀ t ∈ part.term?, t.Lies outer := by
  obtain ⟨tree, meaning⟩ := part
  rintro t ht
  cases meaning with
  | term t' =>
    obtain rfl : t' = t := Option.some.inj ht
    exact Term.Lies.mono h.lies (h.within rfl)
  | pipeline q =>
    obtain rfl : Term.subsearch q tree.core = t := Option.some.inj ht
    exact ⟨h.within rfl, h.lies⟩
  | _ => cases ht

theorem search : ∀ s ∈ part.search?, s.Lies outer := by
  obtain ⟨tree, meaning⟩ := part
  rintro s hs
  cases meaning with
  | search s' =>
    obtain rfl : s' = s := Option.some.inj hs
    exact Search.Lies.mono h.lies (h.within rfl)
  | _ => cases hs

theorem pipeline : ∀ q ∈ part.pipeline?, q.Lies outer := by
  obtain ⟨tree, meaning⟩ := part
  rintro q hq
  cases meaning with
  | pipeline q' =>
    obtain rfl : q' = q := Option.some.inj hq
    exact Pipeline.Lies.mono h.lies (h.within rfl)
  | _ => cases hq

theorem assignment : ∀ a ∈ part.assignment?, a.Lies outer := by
  obtain ⟨tree, meaning⟩ := part
  rintro a ha
  cases meaning with
  | assignment a' =>
    obtain rfl : a' = a := Option.some.inj ha
    exact Assignment.Lies.mono h.lies (h.within rfl)
  | _ => cases ha

theorem aggregation : ∀ a ∈ part.aggregation?, a.Lies outer := by
  obtain ⟨tree, meaning⟩ := part
  rintro a ha
  cases meaning with
  | aggregation a' =>
    obtain rfl : a' = a := Option.some.inj ha
    exact Aggregation.Lies.mono h.lies (h.within rfl)
  | _ => cases ha

theorem stage : ∀ s ∈ part.stage?, s.Lies outer ∧ s.span.Within part.tree.core := by
  obtain ⟨tree, meaning⟩ := part
  rintro s hs
  cases meaning with
  | search s' =>
    obtain rfl : Stage.search s' = s := Option.some.inj hs
    cases s' with
    | mk terms span => exact ⟨Search.Lies.mono h.lies (h.within rfl), h.lies.1⟩
  | command c =>
    obtain rfl : Stage.command c tree.core = s := Option.some.inj hs
    exact ⟨⟨h.within rfl, h.lies⟩, .refl (h.within rfl).ordered⟩
  | _ => cases hs

end Part.Fits

namespace Meaning

variable {node : Placed} {parts : List Part} {outer : Span}

/-! ## Parts of a node -/

section Parts

theorem mem_of_part? {shape : Shape} {part : Part} (h : part? shape parts = some part) :
    part ∈ parts ∧ part.tree.isNode shape = true :=
  ⟨List.mem_of_find?_eq_some h, List.find?_some (p := fun part : Part => part.tree.isNode shape) h⟩

variable (hclosed : ∀ part ∈ parts, part.tree.isOpen = false → part.Fits outer)

include hclosed

/-- A part of a shape that is neither a query nor a search fits. -/
theorem fits_part? {shape : Shape} (hshape : shape.isOpen = false) {part : Part}
    (h : part? shape parts = some part) : part.Fits outer := by
  obtain ⟨hmem, hnode⟩ := mem_of_part? h
  exact hclosed part hmem (hshape ▸ Placed.isOpen_of_isNode hnode)

theorem fits_expressionParts : ∀ part ∈ expressionParts parts, part.Fits outer := by
  intro part hpart
  obtain ⟨hmem, hexpression⟩ := List.mem_filter.mp hpart
  exact hclosed part hmem (Placed.isOpen_of_any Shape.isOpen_of_isExpression hexpression)

theorem firstExpression?_lies : ∀ e ∈ firstExpression? parts, e.Lies outer := by
  intro e he
  obtain ⟨part, hpart, he⟩ := Option.bind_eq_some_iff.mp he
  exact (fits_expressionParts hclosed part (List.mem_of_mem_head? hpart)).expression e he

theorem arguments_lies : ∀ e ∈ arguments parts, e.Lies outer := by
  intro e he
  obtain ⟨part, hpart, he⟩ := List.mem_filterMap.mp he
  exact (fits_expressionParts hclosed part hpart).expression e he

/-- What stands between the parentheses of a call. -/
theorem argList_lies : ∀ e ∈ (part? .argList parts).elim [] (·.expressions), e.Lies outer := by
  cases hlist : part? .argList parts with
  | none => exact nofun
  | some part => exact (fits_part? hclosed rfl hlist).expressions

theorem terms_lies : ∀ t ∈ terms parts, t.Lies outer := by
  intro t ht
  obtain ⟨part, hpart, ht⟩ := List.mem_filterMap.mp ht
  obtain ⟨hmem, hterm⟩ := List.mem_filter.mp hpart
  exact (hclosed part hmem (Placed.isOpen_of_any Shape.isOpen_of_isTerm hterm)).term t ht

end Parts

section Nodes

variable (hnode : node.Fair)
  (hclosed : ∀ part ∈ parts, part.tree.isOpen = false → part.Fits node.core)

include hnode hclosed

/-! ## Expressions -/

theorem binary_lies : ∀ e ∈ binary node parts, e.Lies node.core := by
  have hoperand (i : Nat) : ∀ e ∈ (expressionParts parts)[i]?.bind (·.expression?),
      e.Lies node.core := by
    intro e he
    obtain ⟨part, hpart, he⟩ := Option.bind_eq_some_iff.mp he
    exact (fits_expressionParts hclosed part (List.mem_of_getElem? hpart)).expression e he
  intro e he
  obtain ⟨op, -, he⟩ := Option.bind_eq_some_iff.mp he
  dsimp only at he
  split at he
  · next left right hleft hright =>
    cases he
    exact ⟨hnode.ordered, hoperand 0 left hleft, hoperand 1 right hright⟩
  · next operand hleft hright =>
    cases he
    exact hoperand 0 e hleft
  · next operand hleft hright =>
    cases he
    exact hoperand 1 e hright
  · cases he

theorem expression?_lies (shape : Shape) :
    ∀ e ∈ expression? node parts shape, e.Lies node.core := by
  intro e he
  cases shape with
  | binaryExpr => exact binary_lies hnode hclosed e he
  | unaryExpr =>
    obtain ⟨op, -, he⟩ := Option.bind_eq_some_iff.mp he
    obtain ⟨operand, hoperand, he⟩ := Option.bind_eq_some_iff.mp he
    cases he
    exact ⟨hnode.ordered, firstExpression?_lies hclosed operand hoperand⟩
  | parenExpr => exact firstExpression?_lies hclosed e he
  | callExpr =>
    obtain ⟨name, -, he⟩ := Option.bind_eq_some_iff.mp he
    cases he
    exact ⟨hnode.ordered, Expression.liesAll_iff.mpr (argList_lies hclosed)⟩
  | inList =>
    cases he
    exact ⟨hnode.ordered, Expression.liesAll_iff.mpr (arguments_lies hclosed)⟩
  | fieldRef =>
    obtain ⟨l, -, rfl⟩ := Option.map_eq_some_iff.mp he
    exact hnode.ordered
  | literal =>
    obtain ⟨l, hl, rfl⟩ := Option.map_eq_some_iff.mp he
    have hwithin := hnode.within_lexeme (List.mem_of_mem_head? hl)
    rw [literalOf]
    split <;> exact hwithin
  | _ => cases he

theorem assignment?_lies : ∀ a ∈ assignment? node parts, a.Lies node.core := by
  intro a ha
  obtain ⟨target, -, ha⟩ := Option.bind_eq_some_iff.mp ha
  obtain ⟨e, he, ha⟩ := Option.bind_eq_some_iff.mp ha
  cases ha
  exact ⟨hnode.ordered, firstExpression?_lies hclosed e he⟩

theorem aggregation?_lies : ∀ a ∈ aggregation? node parts, a.Lies node.core := by
  intro a ha
  obtain ⟨name, -, ha⟩ := Option.bind_eq_some_iff.mp ha
  cases ha
  exact ⟨hnode.ordered, argList_lies hclosed⟩

/-! ## Searches -/

theorem term?_lies (shape : Shape) : ∀ t ∈ term? node parts shape, t.Lies node.core := by
  intro t ht
  cases shape with
  | searchOr =>
    cases ht
    exact ⟨hnode.ordered, Term.liesAll_iff.mpr (terms_lies hclosed)⟩
  | searchNot =>
    obtain ⟨part, hpart, ht⟩ := Option.bind_eq_some_iff.mp ht
    obtain ⟨operand, hoperand, ht⟩ := Option.bind_eq_some_iff.mp ht
    cases ht
    have hterm := List.find?_some (p := fun p : Part => p.tree.shape?.any Shape.isTerm) hpart
    have hfits := hclosed part (List.mem_of_find?_eq_some hpart)
      (Placed.isOpen_of_any Shape.isOpen_of_isTerm hterm)
    exact ⟨hnode.ordered, hfits.term operand hoperand⟩
  | searchGroup =>
    cases ht
    exact ⟨hnode.ordered, Term.liesAll_iff.mpr (terms_lies hclosed)⟩
  | searchComparison =>
    obtain ⟨field, -, ht⟩ := Option.bind_eq_some_iff.mp ht
    obtain ⟨op, -, ht⟩ := Option.bind_eq_some_iff.mp ht
    cases ht
    exact hnode.ordered
  | searchIn =>
    rw [term?] at ht
    split at ht
    · cases ht
    · cases ht
      exact hnode.ordered
  | searchTerm =>
    obtain ⟨value, -, ht⟩ := Option.bind_eq_some_iff.mp ht
    cases ht
    exact hnode.ordered
  | searchMacro =>
    obtain ⟨l, -, ht⟩ := Option.bind_eq_some_iff.mp ht
    cases ht
    exact hnode.ordered
  | _ => cases ht

theorem searchOf_lies : (searchOf node parts).Lies node.core :=
  ⟨hnode.ordered, Term.liesAll_iff.mpr (terms_lies hclosed)⟩

end Nodes

end Meaning

end SplQuery
