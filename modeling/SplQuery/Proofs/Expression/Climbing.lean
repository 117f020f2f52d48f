import SplQuery.Grammar.Pipeline
import SplQuery.Proofs.Expression.Written
import SplQuery.Proofs.Reading.Primitive

/-!
# Operands and the operators between them

An expression is read as an operand and then, one by one, the operators that belong to it. Where a
left operand ends is not decided when it is read: each operator that is strong enough makes a new
left operand of what has been read so far. So what is said of a left operand (`Climbs`) leaves open
how the repetition over the operators goes on, while what is said of a whole expression (`Parses`)
depends on what comes after it.

* `Climbs.parses` — a left operand that nothing strong enough follows is the whole expression.
* `climbs_binary` — an operator that is strong enough climbs on.
* `Climbs.of_writable` — every expression that is written is read as its tree.
-/

namespace SplQuery.Grammar

open SplQuery.Parser State Expression

variable {n level least : Nat} {s t m : State} {k : Kind} {w : String}
  {r : List (Kind × String)} {T L R : Tree}

/-- What comes after an expression neither makes a call of it nor holds it so strongly. -/
def Follows (bound : Nat) (r : List (Kind × String)) : Prop :=
  ∀ k ∈ r.head?.map (·.1),
    k ≠ .lparen ∧ ∀ left right, strength? k = some (left, right) → left < bound

/-- Read as a whole, at a level with so many below it. -/
def Parses (n level : Nat) (T : Tree) : Prop :=
  ∀ least ≤ 2 * level + 1, ∀ s r, s.coming = T.leaves ++ r → Follows least r →
    Ends (operators (belowAt n) least) s fun _ t => Adds [T] s t

/-- Read as a left operand: whatever the repetition over the operators comes to from a state in
which the tree has been put in after a mark, it comes to from the mark. -/
def Climbs (n level : Nat) (T : Tree) : Prop :=
  ∀ least ≤ 2 * level + 1, ∀ m r (Q : State → Prop), m.Tidy → m.coming = T.leaves ++ r →
    Follows (2 * level + 2) r →
    (∀ t, Adds [T] m t → Loops (operatorStep (belowAt n) least m.built.length) t Q) →
    Ends (signedOperand (belowAt n)) m fun _ u =>
      Loops (operatorStep (belowAt n) least m.built.length) u Q

/-! ## What comes after -/

theorem Follows.mono {bound bound' : Nat} (h : Follows bound r) (hle : bound ≤ bound') :
    Follows bound' r := by
  intro k hk
  obtain ⟨hparen, hleft⟩ := h k hk
  exact ⟨hparen, fun left right hs => Nat.lt_of_lt_of_le (hleft left right hs) hle⟩

theorem Follows.not_lparen {bound : Nat} (h : Follows bound r) :
    r.head?.map (·.1) ≠ some .lparen := by
  intro hk
  exact (h .lparen hk).1 rfl

theorem follows_nil (bound : Nat) : Follows bound [] := fun _ hk => absurd hk (by simp)

/-- A lexeme that is no operator and no parenthesis that opens ends every expression. -/
theorem follows_of_strength_none (bound : Nat) (hk : k ≠ .lparen) (hs : strength? k = none) :
    Follows bound ((k, w) :: r) := by
  rintro _ ⟨⟩
  refine ⟨hk, fun left right h => ?_⟩
  rw [hs] at h
  cases h

/-- No operator takes the operand of a sign away from it. -/
theorem Follows.sign {bound : Nat} (h : Follows bound r) : Follows signStrength r := by
  intro k hk
  refine ⟨(h k hk).1, fun left right hs => ?_⟩
  unfold strength? at hs
  split at hs <;> cases hs <;> decide

/-! ## Levels -/

/-- Where there is a level further down, an expression is read there. -/
theorem expressionFrom_adds (h : Parses n level T) (hleast : least ≤ 2 * level + 1)
    (hs : s.coming = T.leaves ++ r) (hr : Follows least r) :
    Ends (expressionFrom (belowAt (n + 1)) least) s fun _ t => Adds [T] s t :=
  descend_adds (h least hleast s.refresh r hs hr)

/-! ## Operators -/

/-- No operator is read where none is strong enough. -/
theorem operatorStep_stops {below : Option Inner} {start : Nat} (h : Follows least s.coming) :
    Ends (operatorStep below least start) s fun more t => more = false ∧ Looks s t := by
  refine (Adds.refl s).asks_current fun t ht => ?_
  rw [next?_eq]
  rcases hk : s.coming.head?.map (·.1) with _ | k
  · rw [hk]
    exact .pure ⟨rfl, ht⟩
  · obtain ⟨-, hleft⟩ := h k hk
    rw [hk]
    rcases hs : strength? k with _ | ⟨left, right⟩
    · simp only [hs]
      exact .pure ⟨rfl, ht⟩
    · simp only [hs, if_pos (hleft left right hs)]
      exact .pure ⟨rfl, ht⟩

/-- An operator that is strong enough is read with its right operand. -/
theorem operatorStep_reads {op : String} (hop : IsOperator op level k)
    (hleast : least ≤ 2 * level + 1) (hleft : Adds [L] m s) (hm : m.Tidy)
    (hright : Parses n (level + 1) R) (hs : s.coming = (k, op) :: (R.leaves ++ r))
    (hr : Follows (2 * level + 2) r) :
    Ends (operatorStep (belowAt (n + 1)) least m.built.length) s fun more t =>
      more = true ∧ Adds [.node .binaryExpr [L, .leaf k op, R]] m t := by
  refine (Adds.refl s).asks_current fun t ht => ?_
  have hbody : Ends (do bump; expressionFrom (belowAt (n + 1)) (2 * level + 2))
      (cut m.built.length t) fun _ u => Adds [.leaf k op, R] (cut m.built.length t) u := by
    have ht' : (cut m.built.length t).coming = (k, op) :: (R.leaves ++ r) := ht.coming.trans hs
    refine (bump_adds (ready_cut _ ht.ready) ht').bind fun _ u hu => ?_
    refine (expressionFrom_adds hright (by omega) (hu.coming_eq ht') hr).mono fun _ _ hv => ?_
    exact hu.trans hv
  rw [next?_of_coming hs]
  simp only [hop.strength, if_neg (Nat.not_lt.mpr hleast), if_neg hop.not_in]
  refine (wrapFrom_adds (hleft.andLooks ht) hm hbody).bind fun _ u hu => ?_
  exact .pure ⟨rfl, hu⟩

/-! ## Whole expressions -/

/-- A left operand that no operator takes further is the whole expression. -/
theorem Climbs.parses (h : Climbs n level T) : Parses n level T := by
  intro least hleast s r hs hr
  refine (mark_looks s).bind ?_
  rintro _ m ⟨hm, htidy, rfl⟩
  have hcoming : m.coming = T.leaves ++ r := hm.coming.trans hs
  refine (h least hleast m r (fun t => Adds [T] s t) htidy hcoming (hr.mono (by omega))
    fun t ht => ?_).bind fun _ u hu => whileTrue_of_loops hu
  have hfollows : Follows least t.coming := by rwa [ht.after hcoming]
  refine .last ((operatorStep_stops hfollows).mono ?_)
  rintro _ u ⟨rfl, hu⟩
  exact ⟨rfl, hm.then (ht.andLooks hu)⟩

/-! ## Operands -/

/-- No call starts with a parenthesis, nor with a lexeme that none follows. -/
theorem atCallee_no (h : s.coming = (k, w) :: r)
    (hr : k = .lparen ∨ r.head?.map (·.1) ≠ some .lparen) :
    Ends atCallee s fun b t => b = false ∧ Looks s t := by
  refine (Adds.refl s).asks_current fun t ht => ?_
  refine ht.adds.asks_text h fun u hu => ?_
  rw [next?_of_coming h]
  split
  · next hcall =>
    have hahead : r.head?.map (·.1) ≠ some .lparen := by
      rcases hr with rfl | hr
      · cases hcall
      · exact hr
    refine (hu.adds.isAhead_looks .lparen).mono ?_
    rintro _ v ⟨rfl, hv⟩
    refine ⟨?_, hv⟩
    rw [second?_of_coming h]
    exact beq_eq_false_iff_ne.mpr hahead
  · exact .pure ⟨rfl, hu⟩

/-- A name before a parenthesis calls a function. -/
theorem atCallee_yes {v : String} (h : s.coming = (.identifier, w) :: (.lparen, v) :: r) :
    Ends atCallee s fun b t => b = true ∧ Looks s t := by
  refine (Adds.refl s).asks_current fun t ht => ?_
  refine ht.adds.asks_text h fun u hu => ?_
  rw [next?_of_coming h]
  split
  · refine (hu.adds.isAhead_looks .lparen).mono ?_
    rintro _ x ⟨rfl, hx⟩
    refine ⟨?_, hx⟩
    rw [second?_of_coming h]
    rfl
  · next hno => exact absurd rfl hno

/-- What is read as an operand without a sign in front is a left operand for any operator. -/
theorem climbs_of_operand
    (hfirst : ∀ (s : State) r, s.coming = T.leaves ++ r →
      s.next? ≠ some (.clause .not) ∧ s.next? ≠ some .minus)
    (h : ∀ (s : State) r, s.coming = T.leaves ++ r → r.head?.map (·.1) ≠ some .lparen →
      Ends (operand (belowAt n)) s fun _ t => Adds [T] s t) : Climbs n level T := by
  intro least hleast m r Q htidy hm hr hQ
  refine (Adds.refl m).asks_current fun t ht => ?_
  have hoperand : Ends (operand (belowAt n)) t fun _ u =>
      Loops (operatorStep (belowAt n) least m.built.length) u Q :=
    (h t r (ht.coming.trans hm) hr.not_lparen).mono fun _ u hu => hQ u (ht.then hu)
  obtain ⟨hnot, hminus⟩ := hfirst m r hm
  split
  · next hk => exact absurd hk hnot
  · next hk => exact absurd hk hminus
  · exact hoperand

/-- The nodes around lexemes that are operands by themselves. -/
def singles : List (Kind × Shape) := [(.identifier, .fieldRef), (.stringLiteral, .literal),
  (.numberLiteral, .literal), (.timeModifier, .literal), (.booleanLiteral, .literal)]

/-- A name or a value by itself. A text between single quotes would be a name. -/
theorem operand_single {below : Option Inner} {shape : Shape} (hk : (k, shape) ∈ singles)
    (hquote : k = .stringLiteral → Text.beginsWith '\'' w = false) (h : s.coming = (k, w) :: r)
    (hr : r.head?.map (·.1) ≠ some .lparen) :
    Ends (operand below) s fun _ t => Adds [.node shape [.leaf k w]] s t := by
  refine (atCallee_no h (.inr hr)).bind ?_
  rintro _ t ⟨rfl, ht⟩
  rw [if_neg Bool.false_ne_true]
  refine ht.adds.asks_current fun u hu => ?_
  rw [next?_of_coming h]
  have hsingle {shape : Shape} {v : State} (hv : Looks s v) :
      Ends (single shape) v fun _ x => Adds [.node shape [.leaf k w]] s x :=
    (single_adds hv.ready (hv.coming.trans h)).mono fun _ _ hx => hv.then hx
  simp only [singles, List.mem_cons, List.not_mem_nil, or_false, Prod.mk.injEq] at hk
  rcases hk with ⟨rfl, rfl⟩ | ⟨rfl, rfl⟩ | ⟨rfl, rfl⟩ | ⟨rfl, rfl⟩ | ⟨rfl, rfl⟩
  · exact hsingle hu
  · refine hu.adds.asks_text h fun v hv => ?_
    rw [hquote rfl, if_neg Bool.false_ne_true]
    exact hsingle hv
  · exact hsingle hu
  · exact hsingle hu
  · exact hsingle hu

theorem climbs_single {shape : Shape} (hk : (k, shape) ∈ singles)
    (hquote : k = .stringLiteral → Text.beginsWith '\'' w = false) :
    Climbs n level (.node shape [.leaf k w]) := by
  have hsign : k ≠ .clause .not ∧ k ≠ .minus := by
    have hall : ∀ p ∈ singles, p.1 ≠ .clause .not ∧ p.1 ≠ .minus := by decide
    exact hall _ hk
  refine climbs_of_operand (fun s r hs => ?_) fun s r hs hr => operand_single hk hquote hs hr
  rw [next?_of_coming (w := w) (r := r) hs]
  exact ⟨fun h => hsign.1 (Option.some.inj h), fun h => hsign.2 (Option.some.inj h)⟩

/-- What is between parentheses is a left operand for any operator, if it is an expression one
level further down. -/
theorem climbs_parens (h : Parses n 0 T) :
    Climbs (n + 1) level (.node .parenExpr [.leaf .lparen "(", T, .leaf .rparen ")"]) := by
  have hleaves : (Tree.node .parenExpr [.leaf .lparen "(", T, .leaf .rparen ")"]).leaves =
      (.lparen, "(") :: (T.leaves ++ [(.rparen, ")")]) := by
    simp [Tree.leaves, Tree.leavesOfAll]
  refine climbs_of_operand (fun s r hs => ?_) fun s r hs _ => ?_
  · rw [hleaves] at hs
    rw [next?_of_coming hs]
    exact ⟨by decide, by decide⟩
  · rw [hleaves, List.cons_append, List.append_assoc] at hs
    refine (atCallee_no hs (.inl rfl)).bind ?_
    rintro _ t ⟨rfl, ht⟩
    rw [if_neg Bool.false_ne_true]
    refine ht.adds.asks_current fun u hu => ?_
    rw [next?_of_coming hs]
    refine (node_adds ?_).mono fun _ v hv => hu.then hv
    have hopened : (opened u).coming = _ := hu.coming.trans hs
    refine (pushOpener_looks .lparen _).bind fun _ v hv => ?_
    have hv' : v.coming = _ := hv.coming.trans hopened
    refine (bump_adds hv.ready hv').bind fun _ x hx => ?_
    have hx' : x.coming = T.leaves ++ ([(.rparen, ")")] ++ r) := hx.coming_eq hv'
    refine (expressionFrom_adds h (Nat.zero_le _) hx'
      (follows_of_strength_none 0 (by decide) rfl)).bind fun _ y hy => ?_
    have hy' : y.coming = (.rparen, ")") :: r := hy.after hx'
    refine (close_adds _ hy').mono fun _ z hz => ?_
    exact hv.then ((hx.trans hy).trans hz)

/-- An argument in a call is followed by a comma or by the parenthesis that closes the call. -/
theorem argumentStep_adds (h : Parses n 0 T) (hs : s.coming = T.leaves ++ (k, w) :: r)
    (hk : k = .comma ∨ k = .rparen) :
    Ends (argumentStep (belowAt (n + 1))) s fun more t =>
      if k = .comma then more = true ∧ Adds [T, .leaf .comma w] s t
      else more = false ∧ Adds [T] s t := by
  have hr : Follows 0 ((k, w) :: r) := by
    rcases hk with rfl | rfl <;> exact follows_of_strength_none 0 (by decide) rfl
  refine (expressionFrom_adds h (Nat.zero_le _) hs hr).bind fun _ t ht => ?_
  have hcoming : t.coming = (k, w) :: r := ht.after hs
  rcases hk with rfl | rfl
  · refine (eat_adds hcoming).mono ?_
    rintro _ u ⟨rfl, hu⟩
    rw [if_pos rfl]
    exact ⟨rfl, ht.trans hu⟩
  · have hnext : t.next? ≠ some .comma := by
      rw [next?_of_coming hcoming]
      decide
    refine (eat_looks hnext).mono ?_
    rintro _ u ⟨rfl, hu⟩
    rw [if_neg (by decide)]
    exact ⟨rfl, ht.andLooks hu⟩

/-- The arguments of a call are read one by one. -/
theorem arguments_loops {es : List Expression} (hes : es ≠ [])
    (h : ∀ e ∈ es, Parses n 0 (e.tree 0))
    (hs : s.coming = Tree.leavesOfAll (argumentTrees es) ++ (.rparen, w) :: r) :
    Loops (argumentStep (belowAt (n + 1))) s fun t => Adds (argumentTrees es) s t := by
  induction es generalizing s with
  | nil => exact absurd rfl hes
  | cons e es ih =>
    obtain ⟨he, hrest⟩ := List.forall_mem_cons.mp h
    rcases es with _ | ⟨d, ds⟩
    · rw [argumentTrees, Tree.leavesOfAll_singleton] at hs
      refine .last ((argumentStep_adds he hs (.inr rfl)).mono fun _ t ht => ?_)
      rw [if_neg (by decide)] at ht
      exact ht
    · rw [argumentTrees_cons_cons, Tree.leavesOfAll, Tree.leavesOfAll, Tree.leaves,
        List.append_assoc] at hs
      have hs' : s.coming = (e.tree 0).leaves ++ (.comma, ",") ::
          (Tree.leavesOfAll (argumentTrees (d :: ds)) ++ (.rparen, w) :: r) := hs
      refine .more ((argumentStep_adds he hs' (.inl rfl)).mono ?_)
      rintro _ t ⟨rfl, ht⟩
      have ht' : t.coming = _ := ht.coming_eq (r := _) (by simpa [Tree.leavesOfAll, Tree.leaves]
        using hs')
      refine ⟨rfl, ht.length_lt (by simp [Tree.leavesOfAll, Tree.leaves]), ?_⟩
      rw [argumentTrees_cons_cons]
      exact (ih (List.cons_ne_nil d ds) hrest ht').mono fun u hu => ht.trans hu

/-- The arguments of a call between their parentheses. -/
theorem parenArguments_adds {es : List Expression}
    (h : es ≠ [] → ∃ i, n = i + 1 ∧ ∀ e ∈ es, Parses i 0 (e.tree 0))
    (hbegins : ∀ e ∈ es, Begins (e.tree 0))
    (hs : s.coming = (.lparen, "(") ::
      (Tree.leavesOfAll (argumentTrees es) ++ (.rparen, ")") :: r)) :
    Ends (parenArguments (belowAt n)) s fun _ t =>
      Adds (.leaf .lparen "(" :: (argumentTrees es ++ [.leaf .rparen ")"])) s t := by
  refine (pushOpener_looks .lparen s).bind fun _ t ht => ?_
  have ht' : t.coming = _ := ht.coming.trans hs
  refine (expect_adds "(" ht').bind fun _ u hu => ?_
  have hu' : u.coming = Tree.leavesOfAll (argumentTrees es) ++ (.rparen, ")") :: r :=
    hu.coming_eq ht'
  have hclose {v : State} (hv : Adds (argumentTrees es) u v) :
      Ends (close .rparen .unclosedParen) v fun _ x =>
        Adds (.leaf .lparen "(" :: (argumentTrees es ++ [.leaf .rparen ")"])) s x :=
    (close_adds _ (hv.coming_eq hu')).mono fun _ _ hx => ht.then (hu.trans (hv.trans hx))
  refine (Adds.refl u).asks_isAt fun v hv => ?_
  rcases es with _ | ⟨e, es⟩
  · rw [next?_of_coming hu', beq_self_eq_true, if_pos rfl]
    exact hclose hv.adds
  · obtain ⟨k, x, ls, hls, hk⟩ := hbegins e List.mem_cons_self
    obtain ⟨i, rfl, hi⟩ := h (List.cons_ne_nil e es)
    have hnext : u.next? = some k := by
      obtain ⟨us, hus⟩ : ∃ us, argumentTrees (e :: es) = e.tree 0 :: us := by
        cases es
        · exact ⟨_, rfl⟩
        · exact ⟨_, argumentTrees_cons_cons _ _ _⟩
      rw [hus, Tree.leavesOfAll, hls] at hu'
      exact next?_of_coming hu'
    have hnot : ∀ k ∈ startKinds, (some k == some Kind.rparen) = false ∧ k ≠ .pipe ∧
        k ≠ .rbracket := by decide
    obtain ⟨hparen, hpipe, hbracket⟩ := hnot k hk
    rw [hnext, hparen, if_neg Bool.false_ne_true]
    refine hv.adds.asks_atStageEnd fun y hy => ?_
    rw [atEnd_of_next? hnext hpipe hbracket, if_neg Bool.false_ne_true]
    have hloops := arguments_loops (List.cons_ne_nil e es) hi (hy.coming.trans hu')
    exact (whileTrue_of_loops hloops).bind fun _ z hz => hclose (hy.then hz)

/-- The call of a function is a left operand for any operator. -/
theorem climbs_call {f : String} {es : List Expression}
    (h : es ≠ [] → ∃ i, n = i + 1 ∧ ∀ e ∈ es, Parses i 0 (e.tree 0))
    (hbegins : ∀ e ∈ es, Begins (e.tree 0)) :
    Climbs n level (.node .callExpr [.leaf .identifier f,
      .node .argList (.leaf .lparen "(" :: (argumentTrees es ++ [.leaf .rparen ")"]))]) := by
  have hleaves (r : List (Kind × String)) : (Tree.node .callExpr [.leaf .identifier f,
      .node .argList (.leaf .lparen "(" :: (argumentTrees es ++ [.leaf .rparen ")"]))]).leaves ++
        r = (.identifier, f) :: (.lparen, "(") ::
          (Tree.leavesOfAll (argumentTrees es) ++ (.rparen, ")") :: r) := by
    simp [Tree.leaves, Tree.leavesOfAll, Tree.leavesOfAll_append]
  refine climbs_of_operand (fun s r hs => ?_) fun s r hs _ => ?_
  · rw [hleaves] at hs
    rw [next?_of_coming hs]
    exact ⟨by decide, by decide⟩
  · rw [hleaves] at hs
    refine (atCallee_yes hs).bind ?_
    rintro _ t ⟨rfl, ht⟩
    rw [if_pos rfl]
    refine (node_adds ?_).mono fun _ u hu => ht.then hu
    have ht' : (opened t).coming = _ := ht.coming.trans hs
    refine (bump_adds (ready_opened ht.ready) ht').bind fun _ u hu => ?_
    have hu' : u.coming = _ := hu.coming_eq ht'
    exact (node_adds (parenArguments_adds h hbegins hu')).mono fun _ v hv => hu.trans hv

/-! ## Signs -/

/-- An operand with a sign in front is a left operand for any operator. -/
theorem climbs_unary {op : String} (hsign : k = .clause .not ∨ k = .minus)
    (h : Parses n signLevel T) : Climbs (n + 1) level (.node .unaryExpr [.leaf k op, T]) := by
  intro least hleast m r Q htidy hm hr hQ
  have hleaves : (Tree.node .unaryExpr [.leaf k op, T]).leaves ++ r =
      (k, op) :: (T.leaves ++ r) := by
    simp [Tree.leaves, Tree.leavesOfAll]
  rw [hleaves] at hm
  refine (Adds.refl m).asks_current fun t ht => ?_
  have hbody : Ends (node .unaryExpr do bump; expressionFrom (belowAt (n + 1)) signStrength) t
      fun _ u => Loops (operatorStep (belowAt (n + 1)) least m.built.length) u Q := by
    refine (node_adds ?_).mono fun _ u hu => hQ u (ht.then hu)
    have ht' : (opened t).coming = (k, op) :: (T.leaves ++ r) := ht.coming.trans hm
    refine (bump_adds (ready_opened ht.ready) ht').bind fun _ u hu => ?_
    refine (expressionFrom_adds h (by decide) (hu.coming_eq ht') hr.sign).mono fun _ _ hv => ?_
    exact hu.trans hv
  rw [next?_of_coming hm]
  rcases hsign with rfl | rfl <;> exact hbody

/-! ## Operators between operands -/

/-- An operator that is strong enough makes a left operand of the one before it and of what is
after it. -/
theorem climbs_binary {op : String} {outer : Nat} (hop : IsOperator op level k)
    (houter : outer ≤ level) (hleft : Climbs (n + 1) level L) (hright : Parses n (level + 1) R) :
    Climbs (n + 1) outer (.node .binaryExpr [L, .leaf k op, R]) := by
  intro least hleast m r Q htidy hm hr hQ
  have hleaves : (Tree.node .binaryExpr [L, .leaf k op, R]).leaves ++ r =
      L.leaves ++ (k, op) :: (R.leaves ++ r) := by
    simp [Tree.leaves, Tree.leavesOfAll]
  rw [hleaves] at hm
  have hfollows : Follows (2 * level + 2) ((k, op) :: (R.leaves ++ r)) := by
    rintro _ ⟨⟩
    refine ⟨?_, fun left right hs => ?_⟩
    · rintro rfl
      cases hop.strength
    · rw [hop.strength] at hs
      cases hs
      omega
  -- the left operand ends where the operator is, and the repetition goes on with the operator
  refine hleft least (by omega) m _ Q htidy hm hfollows fun t ht => .more ?_
  have ht' : t.coming = (k, op) :: (R.leaves ++ r) := ht.after hm
  refine (operatorStep_reads hop (by omega) ht htidy hright ht' (hr.mono (by omega))).mono ?_
  rintro _ u ⟨rfl, hu⟩
  refine ⟨rfl, ?_, hQ u hu⟩
  rw [ht', hu.after (hm.trans hleaves.symm), List.length_cons, List.length_append]
  omega

/-! ## All expressions -/

/-- An expression that is written is read as a left operand where there are two levels for each
expression inside another, and one more for parentheses around it. -/
theorem Climbs.of_writable {e : Expression} (h : Writable e) :
    ∀ n level, 2 * e.height + 1 ≤ n → Climbs n level (e.tree level) := by
  induction h with
  | field h => exact fun _ _ _ => climbs_single (by decide) (absurd · (by decide))
  | string =>
    refine fun _ _ _ => climbs_single (by decide) fun _ => ?_
    rw [Text.beginsWith, String.toList_ofList]
    rfl
  | number h => exact fun _ _ _ => climbs_single (by decide) (absurd · (by decide))
  | boolean => exact fun _ _ _ => climbs_single (by decide) (absurd · (by decide))
  | time h => exact fun _ _ _ => climbs_single (by decide) (absurd · (by decide))
  | call hname _ hes ih =>
    intro n level hn
    rw [height] at hn
    rw [tree]
    refine climbs_call (fun _ => ?_) fun e he => (hes e he).begins 0
    obtain ⟨i, rfl⟩ : ∃ i, n = i + 1 := ⟨n - 1, by omega⟩
    refine ⟨i, rfl, fun e he => (ih e he i 0 ?_).parses⟩
    have hheight := height_lt_of_mem he
    omega
  | unary hop _ ih =>
    intro n level hn
    rw [height] at hn
    obtain ⟨i, rfl⟩ : ∃ i, n = i + 1 := ⟨n - 1, by omega⟩
    obtain ⟨-, hsign, -⟩ := isSign_of_mem hop
    rw [tree]
    exact climbs_unary hsign (ih i signLevel (by omega)).parses
  | @binary op left right _ hop _ _ ihl ihr =>
    -- without parentheses around it, the operator needs no level of its own
    have hplain (n outer : Nat) (hn : 2 * (max left.height right.height + 1) ≤ n)
        (houter : outer ≤ levelOf op) : Climbs n outer (.node .binaryExpr
          [left.tree (levelOf op), .leaf (operatorKind op) op, right.tree (levelOf op + 1)]) := by
      obtain ⟨i, rfl⟩ : ∃ i, n = i + 1 := ⟨n - 1, by omega⟩
      exact climbs_binary (isOperator_of_mem hop) houter (ihl _ _ (by omega))
        (ihr _ _ (by omega)).parses
    intro n level hn
    rw [height] at hn
    rw [tree, parenthesizedTree]
    split
    · obtain ⟨i, rfl⟩ : ∃ i, n = i + 1 := ⟨n - 1, by omega⟩
      exact climbs_parens (hplain i 0 (by omega) (Nat.zero_le _)).parses
    · next hlevel =>
      refine hplain n level (by omega) ?_
      simpa using hlevel

end SplQuery.Grammar
