import SplQuery.Grammar.Expression
import SplQuery.Proofs.Lexeme.Freestanding
import SplQuery.Proofs.Reading.Adds
import SplQuery.Query.Expression

/-!
# Expressions in writing

An expression is written as tokens, with parentheses only where an operand would otherwise be taken
apart by the operators around it. The table `precedence` says how strongly operators bind; it is
all that decides where parentheses stand. What is written is parsed to a tree whose lexemes are
these tokens, each of the kind that the scan gives to it.

* `Expression.written` — the tokens of an expression.
* `Expression.Writable` — the expressions that can be written.
* `Expression.unplaced` — an expression without the places of its parts.
* `Expression.tree` — the tree of an expression, trivia left out.
* `Expression.leaves_tree` — its lexemes, as texts, are what is written.
* `Writable.leaves_found` — each of them is one lexeme between blanks.
-/

namespace SplQuery

namespace Expression

/-! ## The table of operators -/

/-- The operators between two operands, those that bind least first. Operators that stand together
bind alike and group to the left. -/
def precedence : List (List String) := [
  ["or"],
  ["xor"],
  ["and"],
  ["=", "==", "!=", "<", "<=", ">", ">=", "like"],
  ["+", "-", "."],
  ["*", "/", "%"]]

/-- The signs in front of an operand. They bind more strongly than all operators. -/
def signs : List String := ["not", "-"]

/-- How strongly an operator binds, if it is one. -/
def levelOf? (operator : String) : Option Nat := precedence.findIdx? (·.contains operator)

/-- How strongly an operator binds. -/
def levelOf (operator : String) : Nat := (levelOf? operator).getD 0

/-- How strongly a sign binds. -/
def signLevel : Nat := precedence.length

/-! ## Writing -/

/-- Tokens between parentheses, if they are needed. -/
def parenthesized (needed : Bool) (tokens : List String) : List String :=
  if needed then "(" :: (tokens ++ [")"]) else tokens

mutual

/-- The tokens of an expression in a place where operators that bind less strongly than `least`
need parentheses around them. -/
def written (least : Nat) : Expression → List String
  | .binary op left right _ =>
    parenthesized (levelOf op < least)
      (left.written (levelOf op) ++ op :: right.written (levelOf op + 1))
  | .unary op operand _ => op :: operand.written signLevel
  | .call f arguments _ => f :: "(" :: (writtenAll arguments ++ [")"])
  | .field ref => [ref.name]
  | .string value _ => [String.ofList (Text.quote '"' value.toList)]
  | .number digits _ => [digits]
  | .boolean value _ => [if value then "true" else "false"]
  | .time value _ => [value]

/-- The tokens of the arguments of a call, with commas between them. -/
def writtenAll : List Expression → List String
  | [] => []
  | [e] => e.written 0
  | e :: es => e.written 0 ++ "," :: writtenAll es

end

/-- The expressions that can be written: their names are identifiers that are no reserved words,
calls are of functions in lower case, and their operators are those of the table. -/
inductive Writable : Expression → Prop where
  | field {ref : FieldRef} (h : IsIdentifier ref.name) : Writable (.field ref)
  | string {value : String} {span : Span} : Writable (.string value span)
  | number {digits : String} {span : Span} (h : IsNumber digits) : Writable (.number digits span)
  | boolean {value : Bool} {span : Span} : Writable (.boolean value span)
  | time {value : String} {span : Span} (h : IsTime value) : Writable (.time value span)
  | call {f : String} {arguments : List Expression} {span : Span} (hname : IsIdentifier f)
      (hlower : f.toLower = f) (h : ∀ a ∈ arguments, Writable a) :
      Writable (.call f arguments span)
  | unary {op : String} {operand : Expression} {span : Span} (hop : op ∈ signs)
      (h : Writable operand) : Writable (.unary op operand span)
  | binary {op : String} {left right : Expression} {span : Span} (hop : op ∈ precedence.flatten)
      (hleft : Writable left) (hright : Writable right) : Writable (.binary op left right span)

/-! ## Height and places -/

mutual

/-- How many expressions an expression has at most one inside another, itself not counted. -/
def height : Expression → Nat
  | .binary _ left right _ => max left.height right.height + 1
  | .unary _ operand _ => operand.height + 1
  | .call _ arguments _ => heightOfAll arguments
  | _ => 0

/-- The height of an expression with certain operands. -/
def heightOfAll : List Expression → Nat
  | [] => 0
  | e :: es => max (e.height + 1) (heightOfAll es)

end

mutual

/-- The expression without the places of its parts. -/
def unplaced : Expression → Expression
  | .binary op left right _ => .binary op left.unplaced right.unplaced default
  | .unary op operand _ => .unary op operand.unplaced default
  | .call f arguments _ => .call f (unplacedAll arguments) default
  | .field ref => .field { ref with span := default }
  | .string value _ => .string value default
  | .number digits _ => .number digits default
  | .boolean value _ => .boolean value default
  | .time value _ => .time value default

/-- Expressions without places. -/
def unplacedAll : List Expression → List Expression
  | [] => []
  | e :: es => e.unplaced :: unplacedAll es

end

/-- `(a or b) and not c = d - (e - 1)`: only what the table would take apart is in parentheses. -/
example :
    let name (n : String) : Expression := .field ⟨n, default⟩
    written 0 (.binary "and" (.binary "or" (name "a") (name "b") default)
      (.binary "=" (.unary "not" (name "c") default)
        (.binary "-" (name "d") (.binary "-" (name "e") (.number "1" default) default) default)
        default) default) =
      ["(", "a", "or", "b", ")", "and", "not", "c", "=", "d", "-", "(", "e", "-", "1", ")"] := by
  decide

theorem height_lt_of_mem {es : List Expression} {e : Expression} (h : e ∈ es) :
    e.height < heightOfAll es := by
  induction es with
  | nil => cases h
  | cons d ds ih =>
    rw [heightOfAll]
    rcases List.mem_cons.mp h with rfl | h
    · omega
    · have := ih h
      omega

/-! ## Trees -/

open SplQuery.Tree (leavesOfAll)

/-- The kind of an operator or a sign. -/
def operatorKind (op : String) : Kind := (Rule.kindOf? Rule.all op.toList).getD .garbage

/-- A tree between parentheses, if they are needed. -/
def parenthesizedTree (needed : Bool) (t : Tree) : Tree :=
  if needed then .node .parenExpr [.leaf .lparen "(", t, .leaf .rparen ")"] else t

mutual

/-- The tree of an expression as it is written where operators that bind less strongly than `least`
need parentheses around them. -/
def tree (least : Nat) : Expression → Tree
  | .binary op left right _ =>
    parenthesizedTree (levelOf op < least) (.node .binaryExpr
      [left.tree (levelOf op), .leaf (operatorKind op) op, right.tree (levelOf op + 1)])
  | .unary op operand _ =>
    .node .unaryExpr [.leaf (operatorKind op) op, operand.tree signLevel]
  | .call f arguments _ =>
    .node .callExpr [.leaf .identifier f,
      .node .argList (.leaf .lparen "(" :: (argumentTrees arguments ++ [.leaf .rparen ")"]))]
  | .field ref => .node .fieldRef [.leaf .identifier ref.name]
  | .string value _ =>
    .node .literal [.leaf .stringLiteral (String.ofList (Text.quote '"' value.toList))]
  | .number digits _ => .node .literal [.leaf .numberLiteral digits]
  | .boolean value _ => .node .literal [.leaf .booleanLiteral (if value then "true" else "false")]
  | .time value _ => .node .literal [.leaf .timeModifier value]

/-- The trees of the arguments of a call, with the commas between them. -/
def argumentTrees : List Expression → List Tree
  | [] => []
  | [e] => [e.tree 0]
  | e :: es => e.tree 0 :: .leaf .comma "," :: argumentTrees es

end

theorem argumentTrees_cons_cons (e d : Expression) (es : List Expression) :
    argumentTrees (e :: d :: es) = e.tree 0 :: .leaf .comma "," :: argumentTrees (d :: es) := by
  rw [argumentTrees]
  exact List.cons_ne_nil d es

/-! ## Lexemes -/

theorem leaves_parenthesizedTree (needed : Bool) (t : Tree) :
    (parenthesizedTree needed t).leaves.map (·.2) =
      parenthesized needed (t.leaves.map (·.2)) := by
  cases needed
  · rfl
  · simp [parenthesizedTree, parenthesized, Tree.leaves, leavesOfAll]

/-- The lexemes of the tree of an expression are the tokens in which it is written. -/
theorem leaves_tree (e : Expression) (least : Nat) :
    (e.tree least).leaves.map (·.2) = e.written least := by
  induction e using Expression.rec (motive_2 := fun es =>
    (leavesOfAll (argumentTrees es)).map (·.2) = writtenAll es) generalizing least with
  | binary op left right span ihl ihr =>
    rw [tree, written, leaves_parenthesizedTree]
    simp [Tree.leaves, leavesOfAll, ihl, ihr]
  | unary op operand span ih => simp [tree, written, Tree.leaves, leavesOfAll, ih]
  | call f arguments span ih =>
    simp [tree, written, Tree.leaves, leavesOfAll, Tree.leavesOfAll_append, ih]
  | field ref => simp [tree, written, Tree.leaves, leavesOfAll]
  | string value span => simp [tree, written, Tree.leaves, leavesOfAll]
  | number digits span => simp [tree, written, Tree.leaves, leavesOfAll]
  | boolean value span => simp [tree, written, Tree.leaves, leavesOfAll]
  | time value span => simp [tree, written, Tree.leaves, leavesOfAll]
  | nil => rfl
  | cons e es ihe ihes =>
    cases es with
    | nil => simp [argumentTrees, writtenAll, leavesOfAll, ihe]
    | cons d ds => simp [argumentTrees, writtenAll, leavesOfAll, Tree.leaves, ihe, ihes]

/-! ## Operators -/

/-- What the scan and the grammar make of an operator of the table. -/
structure IsOperator (op : String) (level : Nat) (k : Kind) : Prop where
  freestanding : Freestanding op.toList k
  solid : k.isTrivia = false
  strength : Grammar.strength? k = some (2 * level + 1, 2 * level + 2)
  not_in : k ≠ .clause .inWord
  name : (if k.isKeyword then op.toLower else op) = op

theorem isOperator_of_mem {op : String} (h : op ∈ precedence.flatten) :
    IsOperator op (levelOf op) (operatorKind op) := by
  have htable : ∀ op ∈ precedence.flatten,
      Rule.kindOf? Rule.all op.toList = some (operatorKind op) ∧
        (op.toList.head?.all fun c => !openers.contains c) = true ∧
        (operatorKind op).isTrivia = false ∧
        Grammar.strength? (operatorKind op) = some (2 * levelOf op + 1, 2 * levelOf op + 2) ∧
        operatorKind op ≠ .clause .inWord ∧
        (if (operatorKind op).isKeyword then op.toLower else op) = op := by
    decide +kernel
  obtain ⟨hkind, hhead, hsolid, hstrength, hin, hname⟩ := htable op h
  exact ⟨freestanding_fixed hkind hhead, hsolid, hstrength, hin, hname⟩

/-- What the scan makes of a sign. -/
theorem isSign_of_mem {op : String} (h : op ∈ signs) :
    Freestanding op.toList (operatorKind op) ∧
      (operatorKind op = .clause .not ∨ operatorKind op = .minus) ∧
      (if (operatorKind op).isKeyword then op.toLower else op) = op := by
  have htable : ∀ op ∈ signs,
      Rule.kindOf? Rule.all op.toList = some (operatorKind op) ∧
        (op.toList.head?.all fun c => !openers.contains c) = true ∧
        (operatorKind op = .clause .not ∨ operatorKind op = .minus) ∧
        (if (operatorKind op).isKeyword then op.toLower else op) = op := by
    decide +kernel
  obtain ⟨hkind, hhead, hsign, hname⟩ := htable op h
  exact ⟨freestanding_fixed hkind hhead, hsign, hname⟩

theorem found_node {shape : Shape} {k : Kind} {w : String} (h : Found (k, w)) :
    ∀ l ∈ (Tree.node shape [.leaf k w]).leaves, Found l := by
  rw [Tree.leaves_node, Tree.leavesOfAll_singleton, Tree.leaves, List.forall_mem_singleton]
  exact h

theorem found_parenthesizedTree {needed : Bool} {t : Tree} (h : ∀ l ∈ t.leaves, Found l) :
    ∀ l ∈ (parenthesizedTree needed t).leaves, Found l := by
  cases needed with
  | false => exact h
  | true =>
    intro l hl
    simp only [parenthesizedTree, if_true, Tree.leaves, leavesOfAll, List.append_nil,
      List.mem_append, List.mem_singleton] at hl
    rcases hl with rfl | hl | rfl
    · exact found_lparen
    · exact h l hl
    · exact found_rparen

theorem found_argumentTrees {es : List Expression}
    (h : ∀ e ∈ es, ∀ l ∈ (e.tree 0).leaves, Found l) :
    ∀ l ∈ leavesOfAll (argumentTrees es), Found l := by
  induction es with
  | nil => exact List.forall_mem_nil _
  | cons e es ih =>
    obtain ⟨he, hes⟩ := List.forall_mem_cons.mp h
    cases es with
    | nil =>
      rw [argumentTrees, Tree.leavesOfAll_singleton]
      exact he
    | cons d ds =>
      intro l hl
      rw [argumentTrees_cons_cons] at hl
      simp only [leavesOfAll, Tree.leaves, List.mem_append, List.mem_singleton] at hl
      rcases hl with hl | rfl | hl
      · exact he l hl
      · exact found_comma
      · exact ih hes l hl

/-- Every lexeme of an expression that is written is found again between blanks. -/
theorem Writable.leaves_found {e : Expression} (h : Writable e) (least : Nat) :
    ∀ l ∈ (e.tree least).leaves, Found l := by
  induction h generalizing least with
  | field h => exact found_node ⟨h.freestanding, rfl⟩
  | @string value _ =>
    have hquote : Freestanding (String.ofList (Text.quote '"' value.toList)).toList
        .stringLiteral := by
      rw [String.toList_ofList]
      exact freestanding_quote _
    exact found_node ⟨hquote, rfl⟩
  | number h => exact found_node ⟨h.freestanding, rfl⟩
  | @boolean value _ =>
    refine found_node ⟨?_, rfl⟩
    cases value <;> exact freestanding_fixed (by decide) (by decide)
  | time h => exact found_node ⟨h.freestanding, rfl⟩
  | call hname _ _ ih =>
    intro l hl
    simp only [tree, Tree.leaves, leavesOfAll, Tree.leavesOfAll_append, List.append_nil,
      List.mem_append, List.mem_singleton] at hl
    rcases hl with rfl | rfl | hl | rfl
    · exact ⟨hname.freestanding, rfl⟩
    · exact found_lparen
    · exact found_argumentTrees (fun e he => ih e he 0) l hl
    · exact found_rparen
  | unary hop _ ih =>
    obtain ⟨hfree, hsign, -⟩ := isSign_of_mem hop
    intro l hl
    simp only [tree, Tree.leaves, leavesOfAll, List.append_nil, List.mem_append,
      List.mem_singleton] at hl
    rcases hl with rfl | hl
    · refine ⟨hfree, ?_⟩
      rcases hsign with hkind | hkind <;> rw [hkind] <;> rfl
    · exact ih _ l hl
  | binary hop _ _ ihl ihr =>
    have hoperator := isOperator_of_mem hop
    rw [tree]
    refine found_parenthesizedTree fun l hl => ?_
    simp only [Tree.leaves, leavesOfAll, List.append_nil, List.mem_append,
      List.mem_singleton] at hl
    rcases hl with hl | rfl | hl
    · exact ihl _ l hl
    · exact ⟨hoperator.freestanding, hoperator.solid⟩
    · exact ihr _ l hl

/-! ## First lexemes -/

/-- The kinds of the lexemes with which expressions begin that are written. -/
def startKinds : List Kind := [.identifier, .stringLiteral, .numberLiteral, .timeModifier,
  .booleanLiteral, .lparen, .clause .not, .minus]

/-- The tree has a first lexeme, and it is one with which an expression may begin. -/
def Begins (t : Tree) : Prop := ∃ k w ls, t.leaves = (k, w) :: ls ∧ k ∈ startKinds

theorem begins_leaf {k : Kind} {w : String} (h : k ∈ startKinds) : Begins (.leaf k w) :=
  ⟨k, w, [], rfl, h⟩

theorem Begins.node {shape : Shape} {t : Tree} {ts : List Tree} (h : Begins t) :
    Begins (.node shape (t :: ts)) := by
  obtain ⟨k, w, ls, hls, hk⟩ := h
  refine ⟨k, w, ls ++ leavesOfAll ts, ?_, hk⟩
  rw [Tree.leaves, leavesOfAll, hls]
  rfl

theorem Writable.begins {e : Expression} (h : Writable e) (least : Nat) :
    Begins (e.tree least) := by
  induction h generalizing least with
  | field | string | number | boolean | time | call => exact (begins_leaf (by decide)).node
  | unary hop =>
    obtain ⟨-, hsign, -⟩ := isSign_of_mem hop
    refine (begins_leaf ?_).node
    rcases hsign with hkind | hkind <;> rw [hkind] <;> decide
  | binary _ _ _ ihl _ =>
    rw [tree, parenthesizedTree]
    split
    · exact (begins_leaf (by decide)).node
    · exact (ihl _).node

end Expression

end SplQuery
