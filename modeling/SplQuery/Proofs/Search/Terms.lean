import SplQuery.Grammar.Pipeline
import SplQuery.Proofs.Reading.Primitive

/-!
# How searches are read

Where each lexeme is apart from the next one, a value is one lexeme. What comes after it decides
whether it is a term by itself (`searchValueTerm_keyword`), what a field is compared with
(`searchValueTerm_comparison`) or the field of a list of values (`searchValueTerm_oneOf`).

A search is read term by term. What comes after a term decides whether it goes on: a comparison or a
list of values after a value, an `or` after an operand. None of these can be the first lexeme of
another term, so terms side by side are told apart.

* `ParsesTerm` — a tree is read as a term without disjunctions.
* `ParsesConjunct`, `ParsesTerms` — as a term, and as terms side by side.
-/

namespace SplQuery

namespace State

/-- Each lexeme not yet read that is no trivia is apart from the next one. -/
def Apart (s : State) : Prop := Lexeme.Apart s.rest

theorem Adds.apart {s t : State} {ts : List Tree} (h : Adds ts s t) (hs : s.Apart) : t.Apart :=
  hs.suffix h.rest

/-- Directly ahead there is trivia or the end. -/
def Detached (s : State) : Prop := ∀ l ∈ s.rest.head?, l.isTrivia = true

theorem detached_bump {s : State} {k : Kind} {w : String} {r : List (Kind × String)}
    (hs : s.Ready) (ha : s.Apart) (h : s.coming = (k, w) :: r) : s.bump.Detached := by
  obtain ⟨l, ls, hrest, -, hl, -⟩ := hs.rest h
  rw [Detached, bump_of_cons hrest]
  intro l' hl'
  rw [Apart, hrest] at ha
  obtain ⟨ls', rfl⟩ := List.head?_eq_some_iff.mp hl'
  have hor := (List.isChain_cons_cons.mp ha).1
  rw [hl] at hor
  exact hor.resolve_left Bool.false_ne_true

end State

namespace Grammar

open SplQuery.Parser State

variable {n : Nat} {s t m : State} {k l : Kind} {w v op : String} {r : List (Kind × String)}
  {T : Tree} {Ts Us : List Tree}

/-! ## Values -/

/-- The tree of a value that is one lexeme. -/
def valueTree (k : Kind) (w : String) : Tree := .node .searchValue [.leaf k w]

theorem leaves_valueTree (k : Kind) (w : String) : (valueTree k w).leaves = [(k, w)] := by
  rw [valueTree, Tree.leaves_node, Tree.leavesOfAll_singleton, Tree.leaves]

/-- Nothing is written directly after a lexeme that is apart from the next one. -/
theorem gluedWhile_detached {member : Kind → Bool} (hs : s.Detached) :
    Ends (gluedWhile member) s fun _ t => t = s := by
  refine whileTrue_of_loops (.last ?_)
  refine Ends.bind (P := fun b t => b = false ∧ t = s) ?_ ?_
  · refine Ends.bind (P := fun a t => a = s ∧ t = s) (.get ⟨rfl, rfl⟩) ?_
    rintro _ t ⟨rfl, rfl⟩
    refine .pure ⟨?_, rfl⟩
    rcases hrest : t.rest with _ | ⟨l, ls⟩
    · rfl
    · have hl : l.isTrivia = true := hs l (by rw [hrest]; rfl)
      change (!l.isTrivia) = false
      rw [hl]
      rfl
  · rintro _ _ ⟨rfl, rfl⟩
    exact .pure ⟨rfl, rfl⟩

theorem searchValue_adds (hs : s.Ready) (ha : s.Apart) (h : s.coming = (k, w) :: r) :
    Ends searchValue s fun _ t => Adds [valueTree k w] s t := by
  refine node_adds ?_
  have hopened : (opened s).coming = (k, w) :: r := h
  refine Ends.bind (P := fun _ t => Adds [.leaf k w] (opened s) t ∧ t.Detached)
    ⟨adds_bump (ready_opened hs) hopened, detached_bump (ready_opened hs) ha hopened⟩ ?_
  rintro _ t ⟨ht, hdetached⟩
  refine (gluedWhile_detached hdetached).mono ?_
  rintro _ _ rfl
  exact ht

/-! ## Values and comparisons -/

/-- The lexeme to come is neither an operator nor the word of a list of values. -/
def EndsValue (r : List (Kind × String)) : Prop :=
  ∀ k ∈ r.head?.map (·.1), k.isComparison = false ∧ k ≠ .clause .inWord

theorem EndsValue.next? (hr : EndsValue r) (h : s.coming = r) :
    s.next?.any Kind.isComparison = false ∧ (s.next? == some (.clause .inWord)) = false := by
  rw [next?_eq, h]
  rcases hk : r.head?.map (·.1) with _ | k
  · rw [hk]
    exact ⟨rfl, rfl⟩
  · obtain ⟨hcomparison, hin⟩ := hr k hk
    rw [hk]
    exact ⟨hcomparison, beq_eq_false_iff_ne.mpr fun heq => hin (Option.some.inj heq)⟩

theorem searchValueTerm_keyword (ha : s.Apart) (h : s.coming = (k, w) :: r) (hr : EndsValue r) :
    Ends searchValueTerm s fun _ t => Adds [.node .searchTerm [valueTree k w]] s t := by
  refine (mark_looks s).bind ?_
  rintro _ m ⟨hm, htidy, rfl⟩
  have hm' : m.coming = (k, w) :: r := hm.coming.trans h
  refine (searchValue_adds hm.ready (hm.adds.apart ha) hm').bind fun _ t ht => ?_
  have ht' : t.coming = r := ht.coming_eq (by rw [hm', valueTree]; rfl)
  refine (Adds.refl t).asks_current fun u hu => ?_
  obtain ⟨hcomparison, hin⟩ := hr.next? ht'
  rw [hcomparison, if_neg Bool.false_ne_true]
  refine hu.adds.asks_isAhead fun v hv => ?_
  rw [hin, Bool.false_and, if_neg Bool.false_ne_true]
  have hread : Adds [valueTree k w] m v := ht.andLooks hv
  exact (wrapFrom_adds hread htidy (.pure (Adds.refl _))).mono fun _ _ hx => hm.then hx

theorem searchValueTerm_comparison (ha : s.Apart) (hop : k.isComparison = true)
    (hv : l.isGlue = true) {x : Kind} {f : String}
    (h : s.coming = (x, f) :: (k, op) :: (l, v) :: r) :
    Ends searchValueTerm s fun _ t =>
      Adds [.node .searchComparison [valueTree x f, .leaf k op, valueTree l v]] s t := by
  refine (mark_looks s).bind ?_
  rintro _ m ⟨hm, htidy, rfl⟩
  have hm' : m.coming = _ := hm.coming.trans h
  refine (searchValue_adds hm.ready (hm.adds.apart ha) hm').bind fun _ t ht => ?_
  have ht' : t.coming = (k, op) :: (l, v) :: r := ht.coming_eq (by rw [hm', valueTree]; rfl)
  refine (Adds.refl t).asks_current fun u hu => ?_
  rw [next?_of_coming ht']
  simp only [Option.any_some, hop, if_true]
  have hu' : (cut m.built.length u).coming = (k, op) :: (l, v) :: r := hu.coming.trans ht'
  have hwrap {y : State} (hy : Adds [.node .searchComparison
      ([valueTree x f] ++ [.leaf k op, valueTree l v])] m y) :
      Adds [.node .searchComparison [valueTree x f, .leaf k op, valueTree l v]] s y := hm.then hy
  refine (wrapFrom_adds (ht.andLooks hu) htidy ?_).mono fun _ _ hx => hwrap hx
  have hapart : u.Apart := hu.adds.apart (ht.apart (hm.adds.apart ha))
  refine (bump_adds (ready_cut _ hu.ready) hu').bind fun _ y hy => ?_
  have hy' : y.coming = (l, v) :: r := hy.coming_eq hu'
  refine (Adds.refl y).asks_isIn fun z hz => ?_
  rw [next?_of_coming hy']
  simp only [Option.any_some, hv, if_true]
  have hzapart : z.Apart := hz.adds.apart (hy.apart hapart)
  exact (searchValue_adds hz.ready hzapart (hz.coming.trans hy')).mono fun _ _ hx =>
    hy.trans (hz.then hx)

/-! ## Lists of values -/

/-- The trees of values with commas between them. -/
def valueTrees : List (Kind × String) → List Tree
  | [] => []
  | [e] => [valueTree e.1 e.2]
  | e :: es => valueTree e.1 e.2 :: .leaf .comma "," :: valueTrees es

theorem valueTrees_cons_cons (e d : Kind × String) (es : List (Kind × String)) :
    valueTrees (e :: d :: es) = valueTree e.1 e.2 :: .leaf .comma "," :: valueTrees (d :: es) := by
  rw [valueTrees]
  exact List.cons_ne_nil d es

/-- No value is read where a parenthesis closes. -/
theorem searchValueStep_stops (h : s.coming = (.rparen, w) :: r) :
    Ends searchValueStep s fun more t => more = false ∧ Looks s t := by
  refine (Adds.refl s).asks_isIn fun t ht => ?_
  rw [next?_of_coming h]
  exact .pure ⟨rfl, ht⟩

/-- A value is followed by a comma or by the parenthesis that closes the list. -/
theorem searchValueStep_adds (ha : s.Apart) (hk : k.isGlue = true)
    (h : s.coming = (k, w) :: (l, v) :: r) (hl : l = .comma ∨ l = .rparen) :
    Ends searchValueStep s fun more t =>
      if l = .comma then more = true ∧ Adds [valueTree k w, .leaf .comma v] s t
      else more = false ∧ Adds [valueTree k w] s t := by
  refine (Adds.refl s).asks_isIn fun t ht => ?_
  rw [next?_of_coming h, Option.any_some, hk, if_pos rfl]
  have ht' : t.coming = (k, w) :: (l, v) :: r := ht.coming.trans h
  refine (searchValue_adds ht.ready (ht.adds.apart ha) ht').bind fun _ u hu => ?_
  have hu' : u.coming = (l, v) :: r := hu.coming_eq (by rw [ht', valueTree]; rfl)
  rcases hl with rfl | rfl
  · refine (eat_adds hu').mono ?_
    rintro _ x ⟨rfl, hx⟩
    rw [if_pos rfl]
    exact ⟨rfl, ht.then (hu.trans hx)⟩
  · have hnext : u.next? ≠ some .comma := by
      rw [next?_of_coming hu']
      decide
    refine (eat_looks hnext).mono ?_
    rintro _ x ⟨rfl, hx⟩
    rw [if_neg (by decide)]
    exact ⟨rfl, ht.then (hu.andLooks hx)⟩

theorem searchValues_loops {es : List (Kind × String)} (hes : ∀ e ∈ es, e.1.isGlue = true)
    (ha : s.Apart) (h : s.coming = Tree.leavesOfAll (valueTrees es) ++ (.rparen, w) :: r) :
    Loops searchValueStep s fun t => Adds (valueTrees es) s t := by
  induction es generalizing s with
  | nil =>
    refine .last ((searchValueStep_stops h).mono ?_)
    rintro _ t ⟨rfl, ht⟩
    exact ⟨rfl, ht.adds⟩
  | cons e es ih =>
    obtain ⟨he, hrest⟩ := List.forall_mem_cons.mp hes
    rcases es with _ | ⟨d, ds⟩
    · rw [valueTrees, Tree.leavesOfAll_singleton, leaves_valueTree] at h
      refine .last ((searchValueStep_adds ha he h (.inr rfl)).mono fun _ t ht => ?_)
      rw [if_neg (by decide)] at ht
      exact ht
    · rw [valueTrees_cons_cons, Tree.leavesOfAll, Tree.leavesOfAll, leaves_valueTree,
        Tree.leaves] at h
      refine .more ((searchValueStep_adds ha he h (.inl rfl)).mono ?_)
      rintro _ t ⟨rfl, ht⟩
      have ht' : t.coming = Tree.leavesOfAll (valueTrees (d :: ds)) ++ (.rparen, w) :: r := by
        refine ht.coming_eq (h.trans ?_)
        simp [Tree.leavesOfAll, leaves_valueTree, Tree.leaves]
      refine ⟨rfl, ht.length_lt (by simp [Tree.leavesOfAll, leaves_valueTree]), ?_⟩
      rw [valueTrees_cons_cons]
      exact (ih hrest (ht.apart ha) ht').mono fun u hu => ht.trans hu

/-- The tree of a field and the values that it may have. -/
def oneOfTree (x : Kind) (f inWord : String) (es : List (Kind × String)) : Tree :=
  .node .searchIn (valueTree x f :: .leaf (.clause .inWord) inWord :: .leaf .lparen "(" ::
    (valueTrees es ++ [.leaf .rparen ")"]))

theorem leaves_oneOfTree (x : Kind) (f inWord : String) (es r : List (Kind × String)) :
    (oneOfTree x f inWord es).leaves ++ r = (x, f) :: (.clause .inWord, inWord) ::
      (.lparen, "(") :: (Tree.leavesOfAll (valueTrees es) ++ (.rparen, ")") :: r) := by
  simp [oneOfTree, Tree.leaves, Tree.leavesOfAll, Tree.leavesOfAll_append, leaves_valueTree]

theorem searchValueTerm_oneOf (ha : s.Apart) {x : Kind} {f inWord : String}
    {es : List (Kind × String)} (hes : ∀ e ∈ es, e.1.isGlue = true)
    (h : s.coming = (oneOfTree x f inWord es).leaves ++ r) :
    Ends searchValueTerm s fun _ t => Adds [oneOfTree x f inWord es] s t := by
  rw [leaves_oneOfTree] at h
  refine (mark_looks s).bind ?_
  rintro _ m ⟨hm, htidy, rfl⟩
  have hm' : m.coming = _ := hm.coming.trans h
  refine (searchValue_adds hm.ready (hm.adds.apart ha) hm').bind fun _ t ht => ?_
  have ht' : t.coming = (.clause .inWord, inWord) :: (.lparen, "(") ::
      (Tree.leavesOfAll (valueTrees es) ++ (.rparen, ")") :: r) :=
    ht.coming_eq (by rw [hm', valueTree]; rfl)
  refine (Adds.refl t).asks_current fun u hu => ?_
  rw [next?_of_coming ht', if_neg (by decide)]
  have hu' : u.coming = _ := hu.coming.trans ht'
  refine hu.adds.asks_isAhead fun v hv => ?_
  rw [second?_of_coming ht', if_pos (by rfl)]
  have hv' : (cut m.built.length v).coming = _ := hv.coming.trans ht'
  have hwrap {y : State} (hy : Adds [.node .searchIn ([valueTree x f] ++
      (Tree.leaf (.clause .inWord) inWord :: Tree.leaf .lparen "(" ::
        (valueTrees es ++ [Tree.leaf .rparen ")"])))] m y) : Adds [oneOfTree x f inWord es] s y :=
    hm.then hy
  refine (wrapFrom_adds (ht.andLooks hv) htidy ?_).mono fun _ _ hx => hwrap hx
  have hapart : v.Apart := hv.adds.apart (ht.apart (hm.adds.apart ha))
  refine (bump_adds (ready_cut _ hv.ready) hv').bind fun _ x hx => ?_
  have hx' : x.coming = (.lparen, "(") ::
      (Tree.leavesOfAll (valueTrees es) ++ (.rparen, ")") :: r) := hx.coming_eq hv'
  refine (pushOpener_looks .lparen x).bind fun _ y hy => ?_
  have hy' : y.coming = _ := hy.coming.trans hx'
  refine (bump_adds hy.ready hy').bind fun _ z hz => ?_
  have hz' : z.coming = Tree.leavesOfAll (valueTrees es) ++ (.rparen, ")") :: r :=
    hz.coming_eq hy'
  have hzapart : z.Apart := hz.apart (hy.adds.apart (hx.apart hapart))
  refine (whileTrue_of_loops (searchValues_loops hes hzapart hz')).bind fun _ a hvalues => ?_
  refine (close_adds _ (hvalues.coming_eq hz')).mono fun _ b hb => ?_
  exact hx.trans (hy.then (hz.trans (hvalues.trans hb)))

/-! ## Terms -/

/-- The kinds of the lexemes with which terms begin that are written. -/
def termKinds : List Kind := [.identifier, .stringLiteral, .lparen, .clause .not]

/-- The tree has a first lexeme, and it is one with which a term may begin. -/
def BeginsTerm (T : Tree) : Prop := ∃ k w ls, T.leaves = (k, w) :: ls ∧ k ∈ termKinds

/-- After a term without disjunctions there is another one, a word that joins terms, a parenthesis
that closes a group, or the end. -/
def EndsTerm (r : List (Kind × String)) : Prop :=
  ∀ k ∈ r.head?.map (·.1), k ∈ termKinds ++ [.rparen, .clause .and, .clause .or]

/-- After the last operand of a disjunction there is no further `or`. -/
def EndsOperands (r : List (Kind × String)) : Prop :=
  ∀ k ∈ r.head?.map (·.1), k ∈ termKinds ++ [.rparen, .clause .and]

/-- After the last of several terms there is the parenthesis that closes their group, or the
end. -/
def EndsTerms (r : List (Kind × String)) : Prop := ∀ k ∈ r.head?.map (·.1), k = .rparen

theorem EndsTerm.value (h : EndsTerm r) : EndsValue r := by
  have hall : ∀ k ∈ termKinds ++ [.rparen, .clause .and, .clause .or],
      k.isComparison = false ∧ k ≠ .clause .inWord := by decide
  exact fun k hk => hall k (h k hk)

theorem EndsOperands.term (h : EndsOperands r) : EndsTerm r := by
  have hall : ∀ k ∈ termKinds ++ [.rparen, .clause .and],
      k ∈ termKinds ++ [.rparen, .clause .and, .clause .or] := by decide
  exact fun k hk => hall k (h k hk)

theorem EndsOperands.not_or (h : EndsOperands r) (hs : s.coming = r) :
    s.next? ≠ some (.clause .or) := by
  have hall : ∀ k ∈ termKinds ++ [.rparen, .clause .and], k ≠ .clause .or := by decide
  rw [next?_eq, hs]
  exact fun hor => hall _ (h _ hor) rfl

theorem EndsTerms.operands (h : EndsTerms r) : EndsOperands r := by
  intro k hk
  rw [h k hk]
  decide

theorem BeginsTerm.endsOperands (h : BeginsTerm T) : EndsOperands (T.leaves ++ r) := by
  obtain ⟨k, w, ls, hls, hk⟩ := h
  rw [hls]
  rintro _ ⟨⟩
  exact List.mem_append_left _ hk

/-- Read as a term without disjunctions, where so many levels are left. -/
def ParsesTerm (n : Nat) (T : Tree) : Prop :=
  ∀ s r, s.Apart → s.coming = T.leaves ++ r → EndsTerm r →
    Ends (searchNot (belowAt n) nowhere) s fun _ t => Adds [T] s t

/-- Read as a term, where so many levels are left. -/
def ParsesConjunct (n : Nat) (T : Tree) : Prop :=
  ∀ s r, s.Apart → s.coming = T.leaves ++ r → EndsOperands r →
    Ends (searchOr (belowAt n) nowhere) s fun _ t => Adds [T] s t

/-- Read as terms side by side, where so many levels are left. -/
structure ParsesTerms (n : Nat) (Ts : List Tree) : Prop where
  loops : ∀ s r, s.Apart → s.coming = Tree.leavesOfAll Ts ++ r → EndsTerms r →
    Loops (termStep (belowAt n) nowhere) s fun t => Adds Ts s t
  begins : ∀ r, EndsTerms r → EndsOperands (Tree.leavesOfAll Ts ++ r)

theorem atSearchEnd_looks (s : State) :
    Ends (atSearchEnd nowhere) s fun b t =>
      b = (s.atEnd || s.next? == some .rparen) ∧ Looks s t := by
  refine (Adds.refl s).asks_atStageEnd fun t ht => ?_
  rcases s.atEnd with _ | _
  · rw [if_neg Bool.false_ne_true]
    refine ht.adds.asks_isAt fun u hu => ?_
    rcases s.next? == some .rparen with _ | _
    · rw [if_neg Bool.false_ne_true]
      refine hu.adds.asks_current (f := fun k => Pure.pure (k.any nowhere))
        fun v hv => .pure ⟨?_, hv⟩
      cases s.next? <;> rfl
    · exact .pure ⟨rfl, hu⟩
  · exact .pure ⟨rfl, ht⟩

/-- A term can start at each of the lexemes with which terms begin. -/
theorem atSearchEnd_no (hk : k ∈ termKinds ++ [.clause .and]) (h : s.coming = (k, w) :: r) :
    Ends (atSearchEnd nowhere) s fun b t => b = false ∧ Looks s t := by
  have hall : ∀ k ∈ termKinds ++ [.clause .and], k ≠ .pipe ∧ k ≠ .rbracket ∧
      (some k == some Kind.rparen) = false := by decide
  obtain ⟨hpipe, hbracket, hparen⟩ := hall k hk
  have hnext : s.next? = some k := next?_of_coming h
  refine (atSearchEnd_looks s).mono ?_
  rintro _ t ⟨rfl, ht⟩
  rw [atEnd_of_next? hnext hpipe hbracket, hnext, hparen]
  exact ⟨rfl, ht⟩

theorem atSearchEnd_yes (h : EndsTerms s.coming) :
    Ends (atSearchEnd nowhere) s fun b t => b = true ∧ Looks s t := by
  refine (atSearchEnd_looks s).mono ?_
  rintro _ t ⟨rfl, ht⟩
  refine ⟨?_, ht⟩
  rcases hs : s.coming with _ | ⟨e, r⟩
  · rw [atEnd, next?_of_coming_nil hs]
    rfl
  · have hnext : s.next? = some .rparen := by
      rw [next?_of_coming hs]
      exact congrArg some (h _ (by rw [hs]; rfl))
    rw [hnext]
    exact Bool.or_true _

/-- What is read from a value on is a term. -/
theorem parsesTerm_of_value (hk : k = .identifier ∨ k = .stringLiteral)
    {ls : List (Kind × String)} (hleaves : T.leaves = (k, w) :: ls)
    (h : ∀ s r, s.Apart → s.coming = T.leaves ++ r → EndsTerm r →
      Ends searchValueTerm s fun _ t => Adds [T] s t) : ParsesTerm n T := by
  intro s r ha hs hr
  have hcoming : s.coming = (k, w) :: (ls ++ r) := by rw [hs, hleaves]; rfl
  have hread {t : State} (ht : Looks s t) :
      Ends searchValueTerm t fun _ u => Adds [T] s u :=
    (h t r (ht.adds.apart ha) (ht.coming.trans hs) hr).mono fun _ _ hu => ht.then hu
  refine (Adds.refl s).asks_isAt fun t ht => ?_
  have ht' : t.coming = (k, w) :: (ls ++ r) := ht.coming.trans hcoming
  have hmem : k ∈ termKinds ++ [.clause .and] := by rcases hk with rfl | rfl <;> decide
  rw [next?_of_coming hcoming, if_neg (by rcases hk with rfl | rfl <;> decide)]
  refine (atSearchEnd_no hmem ht').bind ?_
  rintro _ u ⟨rfl, hu⟩
  rw [if_neg Bool.false_ne_true]
  refine hu.adds.asks_current fun v hv => ?_
  have hglue : k.isGlue = true := by rcases hk with rfl | rfl <;> rfl
  rw [next?_of_coming ht']
  rcases hk with rfl | rfl <;> exact hread (ht.adds.looks hv)

/-! ## Negations and groups -/

/-- Where there is a level further down, what a negation stands before is read there. -/
theorem parsesTerm_not (h : ParsesTerm n T) :
    ParsesTerm (n + 1) (.node .searchNot [.leaf (.clause .not) w, T]) := by
  intro s r ha hs hr
  have hleaves : (Tree.node .searchNot [.leaf (.clause .not) w, T]).leaves ++ r =
      (.clause .not, w) :: (T.leaves ++ r) := by
    simp [Tree.leaves, Tree.leavesOfAll]
  rw [hleaves] at hs
  refine (Adds.refl s).asks_isAt fun t ht => ?_
  rw [next?_of_coming hs, if_pos (by rfl)]
  refine (node_adds ?_).mono fun _ u hu => ht.then hu
  have ht' : (opened t).coming = _ := ht.coming.trans hs
  refine (bump_adds (ready_opened ht.ready) ht').bind fun _ u hu => ?_
  have hapart : u.Apart := hu.apart (s := opened t) (ht.adds.apart ha)
  exact (descend_adds (h u.refresh r hapart (hu.coming_eq ht') hr)).mono fun _ _ hv => hu.trans hv

/-- Where there is a level further down, the terms of a group are read there. -/
theorem parsesTerm_group (h : ParsesTerms n Ts) :
    ParsesTerm (n + 1) (.node .searchGroup (.leaf .lparen "(" :: (Ts ++ [.leaf .rparen ")"]))) := by
  intro s r ha hs hr
  have hleaves : (Tree.node .searchGroup
      (.leaf .lparen "(" :: (Ts ++ [.leaf .rparen ")"]))).leaves ++ r =
        (.lparen, "(") :: (Tree.leavesOfAll Ts ++ (.rparen, ")") :: r) := by
    simp [Tree.leaves, Tree.leavesOfAll, Tree.leavesOfAll_append]
  rw [hleaves] at hs
  refine (Adds.refl s).asks_isAt fun t ht => ?_
  have ht' : t.coming = _ := ht.coming.trans hs
  rw [next?_of_coming hs, if_neg (by decide)]
  refine (atSearchEnd_no (by decide) ht').bind ?_
  rintro _ u ⟨rfl, hu⟩
  rw [if_neg Bool.false_ne_true]
  refine hu.adds.asks_current fun v hv => ?_
  rw [next?_of_coming ht']
  have hlooks : Looks s v := ht.adds.looks hv
  refine (node_adds ?_).mono fun _ x hx => hlooks.then hx
  have hv' : (opened v).coming = _ := hlooks.coming.trans hs
  refine (pushOpener_looks .lparen _).bind fun _ x hx => ?_
  have hx' : x.coming = _ := hx.coming.trans hv'
  refine (bump_adds hx.ready hx').bind fun _ y hy => ?_
  have hy' : y.coming = Tree.leavesOfAll Ts ++ (.rparen, ")") :: r := hy.coming_eq hx'
  have hapart : y.Apart := hy.apart (hx.adds.apart (s := opened v) (hlooks.adds.apart ha))
  have hends : EndsTerms ((.rparen, ")") :: r) := by
    rintro _ ⟨⟩
    rfl
  refine (descend_adds (whileTrue_of_loops (h.loops y.refresh _ hapart hy' hends))).bind
    fun _ z hz => ?_
  refine (close_adds _ (hz.coming_eq hy')).mono fun _ a hclosed => ?_
  exact hx.then (hy.trans (hz.trans hclosed))

/-! ## Disjunctions -/

/-- A term without disjunctions is a term. -/
theorem ParsesTerm.conjunct (h : ParsesTerm n T) : ParsesConjunct n T := by
  intro s r ha hs hr
  refine (mark_looks s).bind ?_
  rintro _ m ⟨hm, -, -⟩
  have hm' : m.coming = T.leaves ++ r := hm.coming.trans hs
  refine (h m r (hm.adds.apart ha) hm' hr.term).bind fun _ t ht => ?_
  have hor : t.next? ≠ some (.clause .or) := hr.not_or (ht.after hm')
  refine (Adds.refl t).asks_isAt fun u hu => ?_
  rw [beq_eq_false_iff_ne.mpr hor, if_neg Bool.false_ne_true]
  exact .pure (hm.then (ht.andLooks hu))

/-- Operands after the first one, with `OR` before each of them. -/
def orTrees (Us : List Tree) : List Tree := Us.flatMap fun U => [.leaf (.clause .or) "OR", U]

theorem leaves_orTrees_cons (U : Tree) (Us : List Tree) :
    Tree.leavesOfAll (orTrees (U :: Us)) ++ r =
      (.clause .or, "OR") :: (U.leaves ++ (Tree.leavesOfAll (orTrees Us) ++ r)) := by
  simp [orTrees, Tree.leavesOfAll, Tree.leaves]

theorem endsTerm_orTrees (Us : List Tree) (hr : EndsTerm r) :
    EndsTerm (Tree.leavesOfAll (orTrees Us) ++ r) := by
  cases Us with
  | nil => exact hr
  | cons U Us =>
    rw [leaves_orTrees_cons]
    rintro _ ⟨⟩
    decide

theorem orStep_loops (hUs : ∀ U ∈ Us, ParsesTerm n U) (ha : s.Apart)
    (hs : s.coming = Tree.leavesOfAll (orTrees Us) ++ r) (hr : EndsOperands r) :
    Loops (orStep (belowAt n) nowhere) s fun t => Adds (orTrees Us) s t := by
  induction Us generalizing s with
  | nil =>
    refine .last ((eat_looks (hr.not_or hs)).bind ?_)
    rintro _ t ⟨rfl, ht⟩
    exact .pure ⟨rfl, ht.adds⟩
  | cons U Us ih =>
    obtain ⟨hU, hrest⟩ := List.forall_mem_cons.mp hUs
    rw [leaves_orTrees_cons] at hs
    refine .more ((eat_adds hs).bind ?_)
    rintro _ t ⟨rfl, ht⟩
    have ht' : t.coming = U.leaves ++ (Tree.leavesOfAll (orTrees Us) ++ r) := ht.coming_eq hs
    refine (hU t _ (ht.apart ha) ht' (endsTerm_orTrees Us hr.term)).bind fun _ u hu => ?_
    have hread : Adds [.leaf (.clause .or) "OR", U] s u := ht.trans hu
    refine .pure ⟨rfl, hread.length_lt (List.cons_ne_nil _ _), ?_⟩
    exact (ih hrest (hread.apart ha) (hu.after ht')).mono fun v hv => hread.trans hv

/-- Operands with `OR` between them are a term. -/
theorem parsesConjunct_or {U : Tree} (hT : ParsesTerm n T) (hU : ParsesTerm n U)
    (hUs : ∀ V ∈ Us, ParsesTerm n V) :
    ParsesConjunct n (.node .searchOr (T :: orTrees (U :: Us))) := by
  intro s r ha hs hr
  rw [Tree.leaves_node, Tree.leavesOfAll, List.append_assoc] at hs
  refine (mark_looks s).bind ?_
  rintro _ m ⟨hm, htidy, rfl⟩
  have hm' : m.coming = _ := hm.coming.trans hs
  refine (hT m _ (hm.adds.apart ha) hm' (endsTerm_orTrees (U :: Us) hr.term)).bind fun _ t ht => ?_
  have ht' : t.coming = Tree.leavesOfAll (orTrees (U :: Us)) ++ r := ht.after hm'
  refine (Adds.refl t).asks_isAt fun u hu => ?_
  rw [next?_of_coming (ht'.trans (leaves_orTrees_cons U Us)), if_pos (by rfl)]
  have hloops := orStep_loops (s := cut m.built.length u)
    (List.forall_mem_cons.mpr ⟨hU, hUs⟩) (hu.adds.apart (ht.apart (hm.adds.apart ha)))
    (hu.coming.trans ht') hr
  exact (wrapFrom_adds (ht.andLooks hu) htidy (whileTrue_of_loops hloops)).mono
    fun _ _ hv => hm.then hv

/-! ## Terms side by side -/

theorem parsesTerms_nil (n : Nat) : ParsesTerms n [] := by
  refine ⟨fun s r _ hs hr => ?_, fun r hr => hr.operands⟩
  have hend : EndsTerms s.coming := by
    rw [hs]
    exact hr
  refine .last ((atSearchEnd_yes hend).bind ?_)
  rintro _ t ⟨rfl, ht⟩
  exact .pure ⟨rfl, ht.adds⟩

theorem parsesTerms_cons (hT : ParsesConjunct n T) (hbegins : BeginsTerm T) (h : ParsesTerms n Ts) :
    ParsesTerms n (T :: Ts) := by
  refine ⟨fun s r ha hs hr => ?_, fun r hr => ?_⟩
  · rw [Tree.leavesOfAll, List.append_assoc] at hs
    obtain ⟨k, w, ls, hls, hk⟩ := id hbegins
    have hcoming : s.coming = (k, w) :: (ls ++ (Tree.leavesOfAll Ts ++ r)) := by rw [hs, hls]; rfl
    have hnot : ∀ k ∈ termKinds, k ≠ .clause .and := by decide
    refine .more ((atSearchEnd_no (List.mem_append_left _ hk) hcoming).bind ?_)
    rintro _ t ⟨rfl, ht⟩
    rw [if_neg Bool.false_ne_true]
    have ht' : t.coming = T.leaves ++ (Tree.leavesOfAll Ts ++ r) := ht.coming.trans hs
    have hand : t.next? ≠ some (.clause .and) := by
      rw [next?_of_coming (ht.coming.trans hcoming)]
      exact fun heq => hnot k hk (Option.some.inj heq)
    refine (eat_looks hand).bind ?_
    rintro _ u ⟨rfl, hu⟩
    have hu' : u.coming = _ := hu.coming.trans ht'
    have hapart : u.Apart := hu.adds.apart (ht.adds.apart ha)
    refine (hT u _ hapart hu' (h.begins r hr)).bind fun _ v hv => ?_
    have hread : Adds [T] s v := ht.then (hu.then hv)
    refine .pure ⟨rfl, hread.length_lt (by rw [Tree.leavesOfAll_singleton, hls]; simp), ?_⟩
    exact (h.loops v r (hv.apart hapart) (hv.after hu') hr).mono fun x hx => hread.trans hx
  · rw [Tree.leavesOfAll, List.append_assoc]
    exact hbegins.endsOperands

/-- The word `and` between terms is passed over. -/
theorem parsesTerms_and (h : ParsesTerms n Ts) :
    ParsesTerms n (.leaf (.clause .and) "AND" :: Ts) := by
  refine ⟨fun s r ha hs hr => ?_, fun r hr => ?_⟩
  · have hs' : s.coming = (.clause .and, "AND") :: (Tree.leavesOfAll Ts ++ r) := hs
    refine .more ((atSearchEnd_no (by decide) hs').bind ?_)
    rintro _ t ⟨rfl, ht⟩
    rw [if_neg Bool.false_ne_true]
    have ht' : t.coming = _ := ht.coming.trans hs'
    refine (eat_adds ht').bind ?_
    rintro _ u ⟨rfl, hu⟩
    have hread : Adds [.leaf (.clause .and) "AND"] s u := ht.then hu
    refine .pure ⟨rfl, hread.length_lt (List.cons_ne_nil _ _), ?_⟩
    exact (h.loops u r (hread.apart ha) (hu.coming_eq ht') hr).mono fun x hx => hread.trans hx
  · rintro _ ⟨⟩
    decide

end Grammar

end SplQuery
