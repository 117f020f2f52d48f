import SplQuery.Proofs.Expression.Climbing
import SplQuery.Proofs.Expression.Meaning
import SplQuery.Proofs.Reading.Query

/-!
# Expressions read back

An expression that is written as the condition of a `where` command is read back as it was, but for
the places of its parts. The lexemes of the text are the tokens that were written (`lex_spaced`),
they are read as the tree of the expression (`Climbs.of_writable`), and that tree means the
expression (`Means.of_writable`).

Two levels of nesting are enough to read `a + a + ... + a`, however many operands there are: the
repetition over the operators takes them one by one, without going down a level for each. The chain
groups to the left all the same, so its expression is as high as it has operators. The limit on
nesting is none on the height of expressions.

* `parseQuery_whereText` — what is written is read back.
* `Expression.chain` — the sum of one name so many times.
* `climbs_chain` — it is read with one level below.
* `height_unbounded` — a query without errors whose condition is as high as may be.
-/

namespace SplQuery

open SplQuery.Parser State Grammar

namespace Expression

variable {e : Expression} {limit : Nat}

/-- A query that filters by an expression: single blanks stand between the tokens. -/
def whereText (e : Expression) : String := "| where " ++ " ".intercalate (e.written 0)

/-- The lexemes of the query, as kinds and texts. -/
def whereTokens (e : Expression) : List (Kind × String) :=
  (.pipe, "|") :: (.command .whereWord, "where") :: Tree.leavesOfAll [e.tree 0]

theorem whereText_eq (h : Writable e) :
    whereText e = " ".intercalate ((whereTokens e).map (·.2)) ++ if false then " " else "" := by
  obtain ⟨k, w, ls, hls, -⟩ := h.begins 0
  have hwritten : e.written 0 = (Tree.leavesOfAll [e.tree 0]).map (·.2) := by
    rw [Tree.leavesOfAll_singleton, leaves_tree]
  rw [whereText, hwritten, whereTokens, Tree.leavesOfAll_singleton, hls, ← String.toList_inj]
  simp [String.toList_intercalate]

theorem lex_whereText (h : Writable e) : Lexeme.Spells (lex (whereText e)) (whereTokens e) := by
  rw [whereText_eq h]
  refine lex_spaced (fun l hl => ?_) false
  have hpipe : Found (.pipe, "|") := ⟨freestanding_fixed (by decide) (by decide), rfl⟩
  have hwhere : Found (.command .whereWord, "where") :=
    ⟨freestanding_fixed (by decide) (by decide), rfl⟩
  rcases List.mem_cons.mp hl with rfl | hl
  · exact hpipe
  · rcases List.mem_cons.mp hl with rfl | hl
    · exact hwhere
    · rw [Tree.leavesOfAll_singleton] at hl
      exact h.leaves_found 0 l hl

/-- The condition of a `where` command is read as the tree of the expression, if this is read one
level further down. -/
theorem readsBody_where_of_parses {n : Nat} (h : Writable e) (hparses : Parses n 0 (e.tree 0))
    (s : State) : ReadsBody (belowAt (n + 1)) .whereWord [e.tree 0] s := by
  intro t ht _
  obtain ⟨k, w, ls, hls, hk⟩ := h.begins 0
  rw [Tree.leavesOfAll_singleton] at ht
  have hcoming : t.coming = (k, w) :: ls := ht.trans hls
  have hend : t.atEnd = false := by
    refine atEnd_of_next? (next?_of_coming hcoming) ?_ ?_ <;> rintro rfl <;>
      exact absurd hk (by decide)
  refine (Adds.refl t).asks_atStageEnd fun u hu => ?_
  rw [hend, if_neg Bool.false_ne_true]
  have hcoming : u.coming = (e.tree 0).leaves ++ [] :=
    hu.coming.trans (ht.trans (List.append_nil _).symm)
  exact (expressionFrom_adds hparses (Nat.zero_le _) hcoming (follows_nil 0)).mono
    fun _ _ hv => hu.then hv

theorem readsBody_where (h : Writable e) (hlimit : 2 * e.height + 2 ≤ limit) (s : State) :
    ReadsBody (belowAt limit) .whereWord [e.tree 0] s := by
  obtain ⟨n, rfl⟩ : ∃ n, limit = n + 1 := ⟨limit - 1, by omega⟩
  exact readsBody_where_of_parses h (Climbs.of_writable h n 0 (by omega)).parses s

/-- What a `where` command around the tree of an expression means. -/
theorem meaning_whereCommand (h : Writable e) {p : Placed} {w : String}
    (hp : p.bare = [commandTree .whereWord w [e.tree 0]]) :
    ∃ c, p.meaning = .command c ∧
      ∃ e', c = .simple (.whereCommand (some e')) ∧ e'.unplaced = e.unplaced := by
  obtain ⟨span, core?, ps, qs, rfl, hsolid, hqs⟩ := Placed.node_of_bare hp
  obtain _ | @⟨a, _, _, _, ha, _ | @⟨b, _, _, _, hb, _ | _⟩⟩ := hqs
  obtain ⟨⟨_, rfl⟩, -⟩ := Placed.leaf_of_bare ha
  obtain ⟨hshape, -, e', he, he'⟩ := (Means.of_writable h 0).part hb
  have hcondition : Meaning.firstExpression? (Placed.partsOfAll ps) = some e' := by
    rw [Meaning.firstExpression?, Meaning.expressionParts_eq, hsolid, expressionParts_leaf,
      expressionParts_cons hshape, he]
    rfl
  refine ⟨.simple (.whereCommand (some e')), ?_, e', rfl, he'⟩
  rw [← hcondition]
  rfl

end Expression

open Expression

/-- What is written is read back: where there are two levels of nesting for each expression inside
another and two more, the query that filters by a written expression is without errors, and its one
stage is a `where` command with that expression, but for places. -/
theorem parseQuery_whereText {e : Expression} {limit : Nat} (h : Writable e)
    (hlimit : 2 * e.height + 2 ≤ limit) :
    (parseQuery (whereText e) limit).success = true ∧
      ∃ e' span, (parseQuery (whereText e) limit).query.stages =
          [.command (.simple (.whereCommand (some e'))) span] ∧
        e'.unplaced = e.unplaced := by
  obtain ⟨hsuccess, hbare⟩ := parseQuery_of_spells (lex_whereText h) (readsBody_where h hlimit _)
  refine ⟨hsuccess, ?_⟩
  obtain ⟨_, span, hstages, e', rfl, he'⟩ :=
    stages_of_bare hbare fun q hq => meaning_whereCommand h hq
  exact ⟨e', span, hstages, he'⟩

namespace Expression

/-- `(a or b) and not c = d - (f(e) - 1)`. -/
def sample : Expression :=
  let name (n : String) : Expression := .field ⟨n, default⟩
  .binary "and" (.binary "or" (name "a") (name "b") default)
    (.binary "=" (.unary "not" (name "c") default)
      (.binary "-" (name "d")
        (.binary "-" (.call "f" [name "e"] default) (.number "1" default) default) default)
      default) default

theorem sample_writable : Writable sample := by
  have hname (n : String) (h : IsIdentifier n) : Writable (.field ⟨n, default⟩) := .field h
  have ha := hname "a" (by decide)
  have hb := hname "b" (by decide)
  have hc := hname "c" (by decide)
  have hd := hname "d" (by decide)
  have he := hname "e" (by decide)
  have hcall : Writable (.call "f" [.field ⟨"e", default⟩] default) :=
    .call (by decide) (by decide +kernel) (List.forall_mem_singleton.mpr he)
  have hone : Writable (.number "1" default) := .number (by decide)
  have hdifference : Writable
      (.binary "-" (.call "f" [.field ⟨"e", default⟩] default) (.number "1" default) default) :=
    .binary (by decide) hcall hone
  exact .binary (by decide) (.binary (by decide) ha hb)
    (.binary (by decide) (.unary (by decide) hc) (.binary (by decide) hd hdifference))

theorem parseQuery_whereText_sample :
    Writable sample ∧ 2 * sample.height + 2 ≤ 12 ∧
      whereText sample = "| where ( a or b ) and not c = d - ( f ( e ) - 1 )" ∧
      (parseQuery (whereText sample) 12).success = true ∧
      ∃ e' span, (parseQuery (whereText sample) 12).query.stages =
          [.command (.simple (.whereCommand (some e'))) span] ∧
        e'.unplaced = sample.unplaced :=
  ⟨sample_writable, by decide, by decide,
    parseQuery_whereText sample_writable (by decide)⟩

end Expression

/-! ## Chains of operators -/

namespace Expression

/-- An expression is as high without the places of its parts. -/
theorem height_unplaced (e : Expression) : e.unplaced.height = e.height := by
  induction e using Expression.rec (motive_2 := fun es =>
    heightOfAll (unplacedAll es) = heightOfAll es) with
  | binary op left right span ihl ihr => rw [unplaced, height, height, ihl, ihr]
  | unary op operand span ih => rw [unplaced, height, height, ih]
  | call f arguments span ih => rw [unplaced, height, height, ih]
  | field ref => rfl
  | string value span => rfl
  | number digits span => rfl
  | boolean value span => rfl
  | time value span => rfl
  | nil => rfl
  | cons e es ih ihs => rw [unplacedAll, heightOfAll, heightOfAll, ih, ihs]

/-- `a + a + ... + a`, with so many operators. -/
def chain : Nat → Expression
  | 0 => .field ⟨"a", default⟩
  | n + 1 => .binary "+" (chain n) (.field ⟨"a", default⟩) default

theorem height_chain (n : Nat) : (chain n).height = n := by
  induction n with
  | zero => rfl
  | succ n ih =>
    rw [chain, height, ih]
    exact congrArg (· + 1) (Nat.max_zero n)

theorem writable_chain (n : Nat) : Writable (chain n) := by
  have hname : Writable (.field ⟨"a", default⟩) := .field (by decide)
  induction n with
  | zero => exact hname
  | succ n ih => exact .binary (by decide) ih hname

end Expression

/-- One level below is enough for a chain: that is where the right operands are read. -/
theorem Grammar.climbs_chain (n k : Nat) {level : Nat} (hlevel : level ≤ levelOf "+") :
    Climbs (n + 1) level ((chain k).tree level) := by
  have hname (n level : Nat) : Climbs n level ((chain 0).tree level) :=
    climbs_single (by decide) (absurd · (by decide))
  induction k generalizing level with
  | zero => exact hname _ _
  | succ k ih =>
    rw [chain, tree, decide_eq_false (Nat.not_lt.mpr hlevel), parenthesizedTree,
      if_neg Bool.false_ne_true]
    exact climbs_binary (isOperator_of_mem (by decide)) hlevel (ih (Nat.le_refl _))
      (hname n _).parses

/-- A query that filters by a chain is without errors, and its condition is as high as the chain. -/
theorem parseQuery_chain (limit n : Nat) :
    (parseQuery (whereText (chain n)) (limit + 2)).success = true ∧
      ∃ e span, (parseQuery (whereText (chain n)) (limit + 2)).query.stages =
        [.command (.simple (.whereCommand (some e))) span] ∧ e.height = n := by
  have hparses : Parses (limit + 1) 0 ((chain n).tree 0) :=
    (climbs_chain limit n (Nat.zero_le _)).parses
  obtain ⟨hsuccess, hbare⟩ := parseQuery_of_spells (lex_whereText (writable_chain n))
    (readsBody_where_of_parses (writable_chain n) hparses _)
  obtain ⟨_, span, hstages, e, rfl, he⟩ :=
    stages_of_bare hbare fun q hq => meaning_whereCommand (writable_chain n) hq
  refine ⟨hsuccess, e, span, hstages, ?_⟩
  rw [← height_unplaced, he, height_unplaced, height_chain]

/-- **The limit on nesting does not limit the height of expressions.** From a limit of two on, there
are queries without errors whose condition is as high as may be. -/
theorem height_unbounded {limit : Nat} (hlimit : 2 ≤ limit) (n : Nat) :
    ∃ text e span, (parseQuery text limit).success = true ∧
      (parseQuery text limit).query.stages =
        [.command (.simple (.whereCommand (some e))) span] ∧ e.height = n := by
  obtain ⟨l, rfl⟩ : ∃ l, limit = l + 2 := ⟨limit - 2, by omega⟩
  obtain ⟨hsuccess, e, span, hstages, hheight⟩ := parseQuery_chain l n
  exact ⟨whereText (chain n), e, span, hsuccess, hstages, hheight⟩

/-- With the least such limit, a sum of one hundred names. -/
theorem height_unbounded_hundred :
    2 ≤ 2 ∧ ∃ text e span, (parseQuery text 2).success = true ∧
      (parseQuery text 2).query.stages =
        [.command (.simple (.whereCommand (some e))) span] ∧ e.height = 100 :=
  ⟨Nat.le_refl 2, height_unbounded (Nat.le_refl 2) 100⟩

/-- No function of the limit bounds the height of the conditions that are read. -/
theorem no_height_bound : ¬ ∃ bound : Nat → Nat, ∀ text limit e span,
    (parseQuery text limit).query.stages = [.command (.simple (.whereCommand (some e))) span] →
      e.height ≤ bound limit := by
  rintro ⟨bound, hbound⟩
  obtain ⟨-, e, span, hstages, hheight⟩ := parseQuery_chain 0 (bound 2 + 1)
  have hle := hbound _ 2 e span hstages
  omega

end SplQuery
