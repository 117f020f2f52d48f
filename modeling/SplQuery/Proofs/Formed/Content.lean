import SplQuery.Proofs.Reading.Adds
import SplQuery.Proofs.Tree.Cores
import SplQuery.Tree.View

/-!
# What stands under a node

Where nothing is wrong, the tree of a query obeys a grammar of its own: the shape of a node says of
what shapes the nodes directly under it are, how many there are and in what order, and whether there
are lexemes between them. What a node means is found by kind and by position, and it is this grammar
that makes sure that nothing is missed in this way.

* `Content` — the lexemes and the nodes directly under a node.
* `Shape.Holds` — what a node of a shape may have under it.
* `Tree.Formed` — a tree all of whose nodes hold what they may.
-/

namespace SplQuery

/-- What stands directly under a node, trivia left aside. -/
structure Content where
  /-- the kinds of the lexemes, in order -/
  words : List Kind
  /-- the shapes of the nodes, in order -/
  parts : List Shape

namespace Content

/-- Nothing but trivia. -/
def none : Content := ⟨[], []⟩

/-- A lexeme. -/
def word (k : Kind) : Content := ⟨[k], []⟩

/-- A node. -/
def part (shape : Shape) : Content := ⟨[], [shape]⟩

/-- One after the other. -/
def append (c d : Content) : Content := ⟨c.words ++ d.words, c.parts ++ d.parts⟩

instance : Append Content := ⟨append⟩

@[simp] theorem parts_append (c d : Content) : (c ++ d).parts = c.parts ++ d.parts := rfl

theorem append_none (c : Content) : c ++ none = c :=
  congrArg₂ mk (List.append_nil _) (List.append_nil _)

end Content

/-! ## The grammar of trees -/

namespace Shape

/-- A shape that has a part in neither a computation nor a search. A number in front of a list is
one too. -/
def isPlainPart : Shape → Bool
  | .searchValue | .literal | .optionArg | .optionValue | .fieldList | .fieldItem | .aliasedField
  | .byClause | .overClause | .fromClause | .intoClause | .outputClause | .renamePair
  | .replacePair | .sortField | .fieldCall | .argument => true
  | _ => false

/-- A stage of a query. -/
def isStage (s : Shape) : Bool := s == .searchExpr || s.isCommand

/-- What the arguments of a command may be in which queries between brackets have a place. -/
def isFree (s : Shape) : Bool := s == .subsearch || s.isPlainPart

/-- What free arguments may be. -/
def isArgument : Shape → Bool
  | .argument | .aliasedField | .optionArg | .byClause | .overClause | .subsearch => true
  | _ => false

/-- What the arguments of a command may be that aggregates. -/
def isAggregating (s : Shape) : Bool := s == .aggregation || s.isPlainPart

/-- What the arguments of `tstats` may be. -/
def isAggregatingWhere (s : Shape) : Bool := s == .whereClause || s.isAggregating

/-- What the arguments of `head` may be. -/
def isComputedOrPlain (s : Shape) : Bool := s.isExpression || s.isPlainPart

/-- What the arguments of `inputlookup` may be. -/
def isSearchedOrPlain (s : Shape) : Bool := s == .whereClause || s.isPlainPart

/-- Shapes of a class, any number of them. -/
def Only (member : Shape → Bool) (shapes : List Shape) : Prop := ∀ s ∈ shapes, member s = true

/-- One shape of a class. -/
def One (member : Shape → Bool) (shapes : List Shape) : Prop :=
  ∃ s, member s = true ∧ shapes = [s]

/-- Of what shapes the nodes directly under a node of a shape are. -/
def PartsFit : Shape → List Shape → Prop
  | .error => fun _ => False
  | .root | .subsearch => One (· == .pipeline)
  | .pipeline => Only isStage
  | .searchExpr | .searchOr | .searchGroup => Only isTerm
  | .searchNot => One isTerm
  | .binaryExpr => fun shapes => ∃ left right, One isExpression left ∧ One isExpression right ∧
      shapes = left ++ right
  | .unaryExpr | .parenExpr | .whereCommand => One isExpression
  | .callExpr => One (· == .argList)
  | .argList | .inList => Only isExpression
  | .fieldRef | .literal => fun shapes => shapes = []
  | .assignment => fun shapes => ∃ e, One isExpression e ∧ shapes = .fieldItem :: e
  | .aggregation => fun shapes => ∃ names, Only isPlainPart names ∧
      (shapes = names ∨ shapes = .argList :: names)
  | .whereClause | .searchCommand => One (· == .searchExpr)
  | .evalCommand | .fieldformatCommand => Only (· == .assignment)
  | .statsCommand => Only isAggregating
  | .tstatsCommand => Only isAggregatingWhere
  | .inputlookupCommand => fun shapes =>
      Only isSearchedOrPlain shapes ∧ shapes.countP (· == .whereClause) ≤ 1
  | .headCommand => fun shapes => Only isComputedOrPlain shapes ∧ shapes.countP isExpression ≤ 1
  | .foreachCommand => fun shapes => Only isFree shapes ∧ shapes.countP (· == .subsearch) ≤ 1
  | .keywordCommand | .genericCommand => Only isArgument
  | .aliasedField => fun shapes => ∃ s, isPlainPart s = true ∧ shapes = [s, s]
  | _ => Only isPlainPart

/-- What lexemes stand directly under a node of a shape: an operand by itself is one lexeme, and
what begins with its name or holds operands together has one. -/
def WordsFit : Shape → List Kind → Prop
  | .fieldRef | .literal => fun words => ∃ k, words = [k]
  | .binaryExpr | .unaryExpr | .callExpr | .aggregation => fun words => words ≠ []
  | _ => fun _ => True

/-- What a node of a shape may have directly under it. -/
structure Holds (shape : Shape) (c : Content) : Prop where
  words : shape.WordsFit c.words
  parts : shape.PartsFit c.parts

section Classes

variable {member member' : Shape → Bool} {shapes more : List Shape} {s : Shape}

theorem only_nil : Only member [] := List.forall_mem_nil _

theorem only_singleton : Only member [s] ↔ member s = true := List.forall_mem_singleton

theorem only_append : Only member (shapes ++ more) ↔ Only member shapes ∧ Only member more :=
  List.forall_mem_append

theorem Only.mono (h : Only member shapes) (hmember : ∀ s, member s = true → member' s = true) :
    Only member' shapes :=
  fun s hs => hmember s (h s hs)

theorem One.only (h : One member shapes) : Only member shapes := by
  obtain ⟨s, hs, rfl⟩ := h
  exact only_singleton.mpr hs

/-- What is of one class is not of another one that has nothing in common with it. -/
theorem Only.countP_eq_zero (h : Only member shapes)
    (hmember : ∀ s, member s = true → member' s = false) : shapes.countP member' = 0 := by
  rw [List.countP_eq_zero]
  exact fun s hs => Bool.eq_false_iff.mp (hmember s (h s hs))

theorem One.countP_le (h : One member shapes) : shapes.countP member' ≤ 1 := by
  obtain ⟨s, -, rfl⟩ := h
  exact List.countP_le_length

theorem one_singleton (h : member s = true) : One member [s] := ⟨s, h, rfl⟩

theorem ne_of_isPlainPart {t : Shape} (ht : t.isPlainPart = false) (h : s.isPlainPart = true) :
    (s == t) = false := by
  rw [beq_eq_false_iff_ne]
  rintro rfl
  exact absurd (ht.symm.trans h) Bool.false_ne_true

theorem isFree_of_isPlainPart (h : s.isPlainPart = true) : s.isFree = true := by
  rw [isFree, h, Bool.or_true]

theorem isFree_of_isArgument (h : s.isArgument = true) : s.isFree = true := by
  cases s <;> first | rfl | cases h

theorem isAggregating_of_isPlainPart (h : s.isPlainPart = true) : s.isAggregating = true := by
  rw [isAggregating, h, Bool.or_true]

theorem isAggregatingWhere_of_isAggregating (h : s.isAggregating = true) :
    s.isAggregatingWhere = true := by
  rw [isAggregatingWhere, h, Bool.or_true]

theorem isSearchedOrPlain_of_isPlainPart (h : s.isPlainPart = true) :
    s.isSearchedOrPlain = true := by
  rw [isSearchedOrPlain, h, Bool.or_true]

end Classes

end Shape

/-! ## Trees -/

namespace Tree

/-- The kind of a lexeme that is no trivia. -/
def word? : Tree → Option Kind
  | .leaf kind _ => if kind.isTrivia then none else some kind
  | .node _ _ => none

/-- The shape of a node. -/
def shape? : Tree → Option Shape
  | .leaf _ _ => none
  | .node shape _ => some shape

/-- Trees as what stands under a node. -/
def content (ts : List Tree) : Content := ⟨ts.filterMap word?, ts.filterMap shape?⟩

/-- A node holds what its shape asks for, wherever it starts. -/
def Fits (_ : Nat) (shape : Shape) (children : List Tree) : Prop := shape.Holds (content children)

/-- Every node of the tree holds what its shape asks for. -/
def Formed (t : Tree) : Prop := ∀ start, t.Everywhere Fits start

theorem content_append (ts us : List Tree) : content (ts ++ us) = content ts ++ content us :=
  congrArg₂ Content.mk List.filterMap_append List.filterMap_append

theorem content_leaf {l : Lexeme} (hl : l.isTrivia = false) :
    content [State.leaf l] = .word l.kind := by
  have hkind : ¬ l.kind.isTrivia = true := Bool.eq_false_iff.mp hl
  simp only [content, State.leaf, List.filterMap_cons, List.filterMap_nil, word?, shape?,
    if_neg hkind]
  rfl

theorem content_node (shape : Shape) (ts : List Tree) : content [node shape ts] = .part shape := rfl

/-- Trivia does not count. -/
theorem content_trivia {ls : List Lexeme} (h : ∀ l ∈ ls, l.isTrivia = true) :
    content (ls.map State.leaf) = .none := by
  induction ls with
  | nil => rfl
  | cons l ls ih =>
    obtain ⟨hl, hls⟩ := List.forall_mem_cons.mp h
    have hkind : l.kind.isTrivia = true := hl
    have hleaf : content [State.leaf l] = .none := by
      simp only [content, State.leaf, List.filterMap_cons, List.filterMap_nil, word?, shape?,
        if_pos hkind]
      rfl
    rw [List.map_cons, ← List.singleton_append, content_append, hleaf, ih hls]
    rfl

theorem formed_leaf (l : Lexeme) : (State.leaf l).Formed := fun _ => trivial

theorem formed_node {shape : Shape} {ts : List Tree} (h : ∀ t ∈ ts, t.Formed)
    (hholds : shape.Holds (content ts)) : (node shape ts).Formed :=
  fun start => ⟨hholds, everywhereAll_of_forall h start⟩

end Tree

end SplQuery
