import SplQuery.Proofs.Reading.Query
import SplQuery.Proofs.Search.Meaning
import SplQuery.Proofs.Search.Terms

/-!
# Searches read back

A search that is written as the arguments of a `search` command is read back as it was, but for the
places of its terms. For each way of writing terms there are trees whose lexemes are the tokens that
were written (`Spelt`), that are read where these lexemes come and that mean the terms; they are put
together as the tokens are.
-/

namespace SplQuery

open SplQuery.Parser State Grammar

/-- Lexemes that spell tokens, each of them found again between blanks. -/
structure Spelt (ls : List (Kind × String)) (ws : List String) : Prop where
  texts : ls.map (·.2) = ws
  found : ∀ l ∈ ls, Found l

namespace Spelt

variable {ls ms : List (Kind × String)} {ws vs : List String} {l : Kind × String}

theorem nil : Spelt [] [] := ⟨rfl, List.forall_mem_nil _⟩

theorem cons (hl : Found l) (h : Spelt ls ws) : Spelt (l :: ls) (l.2 :: ws) :=
  ⟨congrArg (l.2 :: ·) h.texts, List.forall_mem_cons.mpr ⟨hl, h.found⟩⟩

theorem append (h : Spelt ls ws) (h' : Spelt ms vs) : Spelt (ls ++ ms) (ws ++ vs) := by
  refine ⟨by rw [List.map_append, h.texts, h'.texts], fun l hl => ?_⟩
  rcases List.mem_append.mp hl with hl | hl
  · exact h.found l hl
  · exact h'.found l hl

end Spelt

/-! ## Values -/

section Values

variable {value w : String} {k : Kind}

theorem Spelling.kind (h : Spelling value k w) : k = .identifier ∨ k = .stringLiteral := by
  cases h
  · exact .inl rfl
  · exact .inr rfl

theorem Spelling.isGlue (h : Spelling value k w) : k.isGlue = true := by
  rcases h.kind with rfl | rfl <;> rfl

theorem Spelling.found (h : Spelling value k w) : Found (k, w) := by
  cases h with
  | bare h => exact ⟨h.freestanding, rfl⟩
  | quoted =>
    refine ⟨?_, rfl⟩
    rw [quotedText, String.toList_ofList]
    exact freestanding_quote _

theorem isGlue_of_spellings {values : List String} {es : List (Kind × String)}
    (h : List.Forall₂ (fun value e => Spelling value e.1 e.2) values es) :
    ∀ e ∈ es, e.1.isGlue = true := by
  induction h with
  | nil => exact List.forall_mem_nil _
  | cons he _ ih => exact List.forall_mem_cons.mpr ⟨he.isGlue, ih⟩

/-- Values that are written are the lexemes of trees with commas between them. -/
theorem WrittenValues.exists_lexemes {values ws : List String} (h : WrittenValues values ws) :
    ∃ es : List (Kind × String), List.Forall₂ (fun value e => Spelling value e.1 e.2) values es ∧
      Spelt (Tree.leavesOfAll (valueTrees es)) ws := by
  induction h with
  | nil => exact ⟨[], .nil, .nil⟩
  | @singleton value w k h =>
    refine ⟨[(k, w)], .cons h .nil, ?_⟩
    rw [valueTrees, Tree.leavesOfAll_singleton, leaves_valueTree]
    exact Spelt.nil.cons h.found
  | @cons value w k values ws h hne _ ih =>
    obtain ⟨es, hes, hspelt⟩ := ih
    obtain _ | @⟨_, e, _, es, he, hes⟩ := hes
    · exact absurd rfl hne
    refine ⟨(k, w) :: e :: es, .cons h (.cons he hes), ?_⟩
    rw [valueTrees_cons_cons, Tree.leavesOfAll, Tree.leavesOfAll, leaves_valueTree, Tree.leaves]
    exact (hspelt.cons found_comma).cons h.found

end Values

/-- The kind of a comparison. -/
theorem found_comparison {op : String} (h : op ∈ comparisonOperators) :
    ∃ k, Found (k, op) ∧ k.isComparison = true := by
  have htable : ∀ op ∈ comparisonOperators, ∃ k ∈ Rule.kindOf? Rule.all op.toList,
      (op.toList.head?.all fun c => !openers.contains c) = true ∧ k.isTrivia = false ∧
        k.isComparison = true := by
    decide
  obtain ⟨k, hkind, hhead, hsolid, hcomparison⟩ := htable op h
  exact ⟨k, ⟨freestanding_fixed hkind hhead, hsolid⟩, hcomparison⟩

/-- Reserved words as searches have them. -/
theorem found_words : Found (.clause .inWord, "IN") ∧ Found (.clause .not, "NOT") ∧
    Found (.clause .or, "OR") ∧ Found (.clause .and, "AND") := by
  refine ⟨⟨?_, rfl⟩, ⟨?_, rfl⟩, ⟨?_, rfl⟩, ⟨?_, rfl⟩⟩ <;>
    exact freestanding_fixed (by decide) (by decide)

/-! ## Trees of terms -/

/-- A tree that is read where a term without disjunctions is written, and means that term. -/
structure TermTree (T : Tree) (t : Term) (ws : List String) : Prop where
  spelt : Spelt T.leaves ws
  begins : BeginsTerm T
  means : MeansTerm T t
  reads : ∀ n, t.nesting ≤ n → ParsesTerm n T

/-- Trees that are read where the operands of a disjunction are written, and mean them. -/
structure OperandTrees (T U : Tree) (Us : List Tree) (ts : List Term) (ws : List String) :
    Prop where
  spelt : Spelt (Tree.leavesOfAll (T :: orTrees (U :: Us))) ws
  begins : BeginsTerm T
  means : MeansTerms (T :: orTrees (U :: Us)) ts
  reads : ∀ n, Term.nestingOfAll ts ≤ n → ∀ V ∈ T :: U :: Us, ParsesTerm n V

/-- A tree that is read where a term is written, and means that term. -/
structure ConjunctTree (T : Tree) (t : Term) (ws : List String) : Prop where
  spelt : Spelt T.leaves ws
  begins : BeginsTerm T
  means : MeansTerm T t
  reads : ∀ n, t.nesting ≤ n → ParsesConjunct n T

/-- Trees that are read where terms are written side by side, and mean them. -/
structure TermTrees (Ts : List Tree) (ts : List Term) (ws : List String) : Prop where
  spelt : Spelt (Tree.leavesOfAll Ts) ws
  means : MeansTerms Ts ts
  reads : ∀ n, Term.nestingOfAll ts ≤ n → ParsesTerms n Ts

section Trees

variable {T U : Tree} {Ts Us : List Tree} {t : Term} {ts : List Term} {ws vs : List String}
  {k l : Kind} {field value f v w : String} {span : Span}

theorem termTree_keyword (h : Spelling value k w) :
    TermTree (.node .searchTerm [valueTree k w]) (.keyword value (k == .stringLiteral) span)
      [w] := by
  have hleaves : (Tree.node .searchTerm [valueTree k w]).leaves = [(k, w)] := by
    rw [Tree.leaves_node, Tree.leavesOfAll_singleton, leaves_valueTree]
  refine ⟨?_, ⟨k, w, [], hleaves, ?_⟩, meansTerm_keyword h, fun n _ => ?_⟩
  · rw [hleaves]
    exact Spelt.nil.cons h.found
  · rcases h.kind with rfl | rfl <;> decide
  · refine parsesTerm_of_value h.kind hleaves fun s r ha hs hr => ?_
    rw [hleaves] at hs
    exact searchValueTerm_keyword ha hs hr.value

theorem termTree_comparison {op : String} (hf : Spelling field k f)
    (hop : op ∈ comparisonOperators) (hv : Spelling value l v) :
    ∃ T, TermTree T (.comparison field op value span) [f, op, v] := by
  obtain ⟨x, hfound, hcomparison⟩ := found_comparison hop
  have hleaves : (Tree.node .searchComparison [valueTree k f, .leaf x op, valueTree l v]).leaves =
      [(k, f), (x, op), (l, v)] := by
    simp [Tree.leaves, Tree.leavesOfAll, leaves_valueTree]
  refine ⟨_, ?_, ⟨k, f, _, hleaves, ?_⟩, meansTerm_comparison hf hcomparison hv, fun n _ => ?_⟩
  · rw [hleaves]
    exact ((Spelt.nil.cons hv.found).cons hfound).cons hf.found
  · rcases hf.kind with rfl | rfl <;> decide
  · refine parsesTerm_of_value hf.kind hleaves fun s r ha hs hr => ?_
    rw [hleaves] at hs
    exact searchValueTerm_comparison ha hcomparison hv.isGlue hs

theorem termTree_oneOf {values : List String} (hf : Spelling field k f)
    (hvalues : WrittenValues values ws) :
    ∃ T, TermTree T (.oneOf field values span) (f :: "IN" :: "(" :: (ws ++ [")"])) := by
  obtain ⟨es, hes, hspelt⟩ := hvalues.exists_lexemes
  have hglue := isGlue_of_spellings hes
  have hleaves : (oneOfTree k f "IN" es).leaves = (k, f) :: (.clause .inWord, "IN") ::
      (.lparen, "(") :: (Tree.leavesOfAll (valueTrees es) ++ [(.rparen, ")")]) := by
    rw [← List.append_nil (oneOfTree k f "IN" es).leaves, leaves_oneOfTree]
  refine ⟨oneOfTree k f "IN" es, ?_, ⟨k, f, _, hleaves, ?_⟩, meansTerm_oneOf hf hes, fun n _ => ?_⟩
  · rw [hleaves]
    exact (((hspelt.append (Spelt.nil.cons found_rparen)).cons found_lparen).cons
      found_words.1).cons hf.found
  · rcases hf.kind with rfl | rfl <;> decide
  · exact parsesTerm_of_value hf.kind hleaves fun s r ha hs _ => searchValueTerm_oneOf ha hglue hs

theorem termTree_not (h : TermTree T t ws) :
    TermTree (.node .searchNot [.leaf (.clause .not) "NOT", T]) (.not t span) ("NOT" :: ws) := by
  have hleaves : (Tree.node .searchNot [.leaf (.clause .not) "NOT", T]).leaves =
      (.clause .not, "NOT") :: T.leaves := by
    rw [Tree.leaves_node, Tree.leavesOfAll, Tree.leavesOfAll_singleton, Tree.leaves]
    rfl
  refine ⟨?_, ⟨_, _, _, hleaves, by decide⟩, meansTerm_not h.means, fun n hn => ?_⟩
  · rw [hleaves]
    exact h.spelt.cons found_words.2.1
  · rw [Term.nesting] at hn
    obtain ⟨i, rfl⟩ : ∃ i, n = i + 1 := ⟨n - 1, by omega⟩
    exact parsesTerm_not (h.reads i (by omega))

theorem termTree_group (h : TermTrees Ts ts ws) :
    TermTree (.node .searchGroup (.leaf .lparen "(" :: (Ts ++ [.leaf .rparen ")"])))
      (.group ts span) ("(" :: (ws ++ [")"])) := by
  have hleaves :
      (Tree.node .searchGroup (.leaf .lparen "(" :: (Ts ++ [.leaf .rparen ")"]))).leaves =
      (.lparen, "(") :: (Tree.leavesOfAll Ts ++ [(.rparen, ")")]) := by
    simp [Tree.leaves, Tree.leavesOfAll, Tree.leavesOfAll_append]
  have hmeans : MeansTerms (.leaf .lparen "(" :: (Ts ++ [.leaf .rparen ")"])) (ts ++ []) :=
    .leaf (h.means.append (.leaf .nil))
  rw [List.append_nil] at hmeans
  refine ⟨?_, ⟨_, _, _, hleaves, by decide⟩, meansTerm_group hmeans, fun n hn => ?_⟩
  · rw [hleaves]
    exact (h.spelt.append (Spelt.nil.cons found_rparen)).cons found_lparen
  · rw [Term.nesting] at hn
    obtain ⟨i, rfl⟩ : ∃ i, n = i + 1 := ⟨n - 1, by omega⟩
    exact parsesTerm_group (h.reads i (by omega))

/-! ## Trees that are put together -/

theorem operandTrees_pair {u : Term} (hT : TermTree T t ws) (hU : TermTree U u vs) :
    OperandTrees T U [] [t, u] (ws ++ "OR" :: vs) := by
  refine ⟨?_, hT.begins, .cons hT.means (.leaf (.cons hU.means .nil)), fun n hn => ?_⟩
  · rw [Tree.leavesOfAll, ← List.append_nil (Tree.leavesOfAll (orTrees [U])), leaves_orTrees_cons]
    have hlast : Spelt (U.leaves ++ []) vs := by
      rw [List.append_nil]
      exact hU.spelt
    exact hT.spelt.append (hlast.cons found_words.2.2.1)
  · rw [Term.nestingOfAll, Term.nestingOfAll, Term.nestingOfAll] at hn
    rw [List.forall_mem_cons, List.forall_mem_singleton]
    exact ⟨hT.reads n (by omega), hU.reads n (by omega)⟩

theorem operandTrees_cons {V : Tree} (hT : TermTree T t ws) (h : OperandTrees U V Us ts vs) :
    OperandTrees T U (V :: Us) (t :: ts) (ws ++ "OR" :: vs) := by
  refine ⟨?_, hT.begins, .cons hT.means (.leaf h.means), fun n hn => ?_⟩
  · exact hT.spelt.append (h.spelt.cons found_words.2.2.1)
  · rw [Term.nestingOfAll] at hn
    rw [List.forall_mem_cons]
    exact ⟨hT.reads n (by omega), h.reads n (by omega)⟩

theorem TermTree.conjunct (h : TermTree T t ws) : ConjunctTree T t ws :=
  ⟨h.spelt, h.begins, h.means, fun n hn => (h.reads n hn).conjunct⟩

theorem OperandTrees.conjunct (h : OperandTrees T U Us ts ws) :
    ConjunctTree (.node .searchOr (T :: orTrees (U :: Us))) (.or ts span) ws := by
  refine ⟨?_, ?_, meansTerm_or h.means, fun n hn => ?_⟩
  · rw [Tree.leaves_node]
    exact h.spelt
  · obtain ⟨k, w, ls, hls, hk⟩ := h.begins
    refine ⟨k, w, ls ++ Tree.leavesOfAll (orTrees (U :: Us)), ?_, hk⟩
    rw [Tree.leaves_node, Tree.leavesOfAll, hls]
    rfl
  · rw [Term.nesting] at hn
    have hreads := h.reads n hn
    rw [List.forall_mem_cons, List.forall_mem_cons] at hreads
    exact parsesConjunct_or hreads.1 hreads.2.1 hreads.2.2

theorem termTrees_cons (hT : ConjunctTree T t ws) (h : TermTrees Ts ts vs) :
    TermTrees (T :: Ts) (t :: ts) (ws ++ vs) := by
  refine ⟨hT.spelt.append h.spelt, .cons hT.means h.means, fun n hn => ?_⟩
  rw [Term.nestingOfAll] at hn
  exact parsesTerms_cons (hT.reads n (by omega)) hT.begins (h.reads n (by omega))

theorem termTrees_and (h : TermTrees Ts ts ws) :
    TermTrees (.leaf (.clause .and) "AND" :: Ts) ts ("AND" :: ws) :=
  ⟨h.spelt.cons found_words.2.2.2, .leaf h.means, fun n hn => parsesTerms_and (h.reads n hn)⟩

end Trees

/-- For terms that are written there are trees. -/
theorem WrittenTerms.exists_trees {ts : List Term} {ws : List String} (h : WrittenTerms ts ws) :
    ∃ Ts, TermTrees Ts ts ws := by
  induction h using WrittenTerms.rec (motive_1 := fun t ws _ => ∃ T, TermTree T t ws)
    (motive_2 := fun ts ws _ => ∃ T U Us, OperandTrees T U Us ts ws)
    (motive_3 := fun t ws _ => ∃ T, ConjunctTree T t ws) with
  | keyword h => exact ⟨_, termTree_keyword h⟩
  | comparison hfield hoperator hvalue => exact termTree_comparison hfield hoperator hvalue
  | oneOf hfield hvalues => exact termTree_oneOf hfield hvalues
  | not _ ih =>
    obtain ⟨T, hT⟩ := ih
    exact ⟨_, termTree_not hT⟩
  | group _ ih =>
    obtain ⟨Ts, hTs⟩ := ih
    exact ⟨_, termTree_group hTs⟩
  | pair _ _ ih ih' =>
    obtain ⟨T, hT⟩ := ih
    obtain ⟨U, hU⟩ := ih'
    exact ⟨T, U, [], operandTrees_pair hT hU⟩
  | more _ _ ih ihs =>
    obtain ⟨T, hT⟩ := ih
    obtain ⟨U, V, Us, hTs⟩ := ihs
    exact ⟨T, U, V :: Us, operandTrees_cons hT hTs⟩
  | term _ ih =>
    obtain ⟨T, hT⟩ := ih
    exact ⟨T, hT.conjunct⟩
  | or _ ih =>
    obtain ⟨T, U, Us, hTs⟩ := ih
    exact ⟨_, hTs.conjunct⟩
  | nil => exact ⟨[], .nil, .nil, fun n _ => parsesTerms_nil n⟩
  | cons _ _ ih ihs =>
    obtain ⟨T, hT⟩ := ih
    obtain ⟨Ts, hTs⟩ := ihs
    exact ⟨_, termTrees_cons hT hTs⟩
  | and _ _ _ ih ihs =>
    obtain ⟨T, hT⟩ := ih
    obtain ⟨Ts, hTs⟩ := ihs
    exact ⟨_, termTrees_cons hT (termTrees_and hTs)⟩

/-! ## Queries -/

section Queries

variable {ts : List Term} {ws : List String} {Ts : List Tree} {limit : Nat}

/-- A query that searches: single blanks stand between the tokens of the terms. -/
def searchText (ws : List String) : String := "| search " ++ " ".intercalate ws

/-- The lexemes of the query, as kinds and texts. -/
def searchTokens (Ts : List Tree) : List (Kind × String) :=
  (.pipe, "|") :: (.command .search, "search") :: Tree.leavesOfAll [.node .searchExpr Ts]

theorem lex_searchText (h : TermTrees Ts ts ws) :
    Lexeme.Spells (lex (searchText ws)) (searchTokens Ts) := by
  have hpipe : Found (.pipe, "|") := ⟨freestanding_fixed (by decide) (by decide), rfl⟩
  have hsearch : Found (.command .search, "search") :=
    ⟨freestanding_fixed (by decide) (by decide), rfl⟩
  have htokens : searchTokens Ts =
      (.pipe, "|") :: (.command .search, "search") :: Tree.leavesOfAll Ts := by
    rw [searchTokens, Tree.leavesOfAll_singleton, Tree.leaves_node]
  have hspelt : Spelt (searchTokens Ts) ("|" :: "search" :: ws) := by
    rw [htokens]
    exact (h.spelt.cons hsearch).cons hpipe
  -- without terms the query ends in a blank
  have htext : searchText ws = " ".intercalate ((searchTokens Ts).map (·.2)) ++
      if ws.isEmpty then " " else "" := by
    rw [searchText, hspelt.texts, ← String.toList_inj]
    cases ws <;> simp [String.toList_intercalate]
  rw [htext]
  exact lex_spaced hspelt.found ws.isEmpty

/-- The arguments of a `search` command are read as the trees of the terms. -/
theorem readsBody_search (h : TermTrees Ts ts ws) (hlimit : Term.nestingOfAll ts ≤ limit)
    {s : State} (hs : s.Apart) : ReadsBody (belowAt limit) .search [.node .searchExpr Ts] s := by
  intro t ht hrest
  rw [Tree.leavesOfAll_singleton, Tree.leaves_node] at ht
  have hends : EndsTerms [] := fun k hk => absurd hk (by simp)
  have hloops := (h.reads limit hlimit).loops (opened t) [] (hs.suffix hrest)
    (ht.trans (List.append_nil _).symm) hends
  exact node_adds (whileTrue_of_loops hloops)

/-- What a `search` command around the trees of terms means. -/
theorem meaning_searchCommand (h : MeansTerms Ts ts) {p : Placed} {w : String}
    (hp : p.bare = [commandTree .search w [.node .searchExpr Ts]]) :
    ∃ c, p.meaning = .command c ∧
      ∃ us span, c = .search (.mk us span) ∧ us.map Term.unplaced = ts.map Term.unplaced := by
  obtain ⟨span, core?, ps, qs, rfl, hsolid, hqs⟩ := Placed.node_of_bare hp
  obtain _ | @⟨a, _, _, _, ha, _ | @⟨b, _, _, _, hb, _ | _⟩⟩ := hqs
  obtain ⟨⟨_, rfl⟩, -⟩ := Placed.leaf_of_bare ha
  obtain ⟨span', core?', ps', qs, rfl, hsolid', hqs⟩ := Placed.node_of_bare hb
  have hsearch : Meaning.part? .searchExpr (Placed.partsOfAll ps) =
      some ⟨.node span' core?' .searchExpr ps',
        (Placed.node span' core?' .searchExpr ps').meaning⟩ := by
    rw [Meaning.part?_eq, hsolid]
    rfl
  have hmeaning : (Placed.node span' core?' .searchExpr ps').meaning =
      .search (.mk (Meaning.terms (Placed.partsOfAll ps'))
        (Placed.node span' core?' .searchExpr ps').core) := by
    rw [Placed.meaning, Meaning.ofNode, Meaning.searchOf]
  refine ⟨.search (.mk (Meaning.terms (Placed.partsOfAll ps'))
    (Placed.node span' core?' .searchExpr ps').core), ?_, _, _, rfl, terms_of_bare h hsolid' hqs⟩
  have hcommand : Meaning.searchCommand (.node span core? .searchCommand ps)
      (Placed.partsOfAll ps) = .search (.mk (Meaning.terms (Placed.partsOfAll ps'))
        (Placed.node span' core?' .searchExpr ps').core) := by
    rw [Meaning.searchCommand, hsearch, Option.bind_some, Part.search?, hmeaning]
    rfl
  rw [← hcommand]
  rfl

/-- What is written is read back: where there is a level of nesting for each negation and each
group inside another and one more, the query that searches for written terms is without errors, and
its one stage is a `search` command with those terms, but for places. -/
theorem parseQuery_searchText (h : WrittenTerms ts ws) (hlimit : Term.nestingOfAll ts < limit) :
    (parseQuery (searchText ws) limit).success = true ∧
      ∃ us place span, (parseQuery (searchText ws) limit).query.stages =
          [.command (.search (.mk us place)) span] ∧
        us.map Term.unplaced = ts.map Term.unplaced := by
  obtain ⟨Ts, hTs⟩ := h.exists_trees
  have hspells := lex_searchText hTs
  obtain ⟨hsuccess, hbare⟩ := parseQuery_of_spells hspells
    (readsBody_search hTs (Nat.le_of_lt hlimit) hspells.apart)
  refine ⟨hsuccess, ?_⟩
  obtain ⟨_, span, hstages, us, place, rfl, hus⟩ :=
    stages_of_bare hbare fun q hq => meaning_searchCommand hTs.means hq
  exact ⟨us, place, span, hstages, hus⟩

/-- `a OR NOT "b c" ( f = x ) AND g IN ( h , "i j" )`, as terms. -/
def sampleTerms : List Term := [
  .or [.keyword "a" false default, .not (.keyword "b c" true default) default] default,
  .group [.comparison "f" "=" "x" default] default,
  .oneOf "g" ["h", "i j"] default]

theorem sampleTerms_written : WrittenTerms sampleTerms ["a", "OR", "NOT", "\"b c\"", "(", "f", "=",
    "x", ")", "AND", "g", "IN", "(", "h", ",", "\"i j\"", ")"] := by
  have hbare (w : String) (h : IsIdentifier w) : Spelling w .identifier w := .bare h
  have hquoted (value w : String) (h : quotedText value = w) : Spelling value .stringLiteral w := by
    subst h
    exact .quoted
  have ha : WrittenTerm (.keyword "a" false default) ["a"] :=
    .keyword (hbare "a" (by decide))
  have hb : WrittenTerm (.keyword "b c" true default) ["\"b c\""] :=
    .keyword (hquoted "b c" _ (by decide))
  have hcomparison : WrittenTerm (.comparison "f" "=" "x" default) ["f", "=", "x"] :=
    .comparison (hbare "f" (by decide)) (by decide) (hbare "x" (by decide))
  have hgroup : WrittenTerm (.group [.comparison "f" "=" "x" default] default)
      ["(", "f", "=", "x", ")"] := .group (.cons (.term hcomparison) .nil)
  have honeOf : WrittenTerm (.oneOf "g" ["h", "i j"] default)
      ["g", "IN", "(", "h", ",", "\"i j\"", ")"] :=
    .oneOf (hbare "g" (by decide)) (.cons (hbare "h" (by decide)) (by decide)
      (.singleton (hquoted "i j" _ (by decide))))
  exact .cons (.or (.pair ha (.not hb)))
    (.and (.term hgroup) (List.cons_ne_nil _ _) (.cons (.term honeOf) .nil))

theorem parseQuery_searchText_sample :
    Term.nestingOfAll sampleTerms < 2 ∧
      searchText ["a", "OR", "NOT", "\"b c\"", "(", "f", "=", "x", ")", "AND", "g", "IN", "(",
        "h", ",", "\"i j\"", ")"] =
          "| search a OR NOT \"b c\" ( f = x ) AND g IN ( h , \"i j\" )" ∧
      (parseQuery "| search a OR NOT \"b c\" ( f = x ) AND g IN ( h , \"i j\" )" 2).success =
        true ∧
      ∃ us place span,
        (parseQuery "| search a OR NOT \"b c\" ( f = x ) AND g IN ( h , \"i j\" )" 2).query.stages =
          [.command (.search (.mk us place)) span] ∧
        us.map Term.unplaced = sampleTerms.map Term.unplaced := by
  have htext : searchText ["a", "OR", "NOT", "\"b c\"", "(", "f", "=", "x", ")", "AND", "g", "IN",
      "(", "h", ",", "\"i j\"", ")"] =
        "| search a OR NOT \"b c\" ( f = x ) AND g IN ( h , \"i j\" )" := by decide
  have hlimit : Term.nestingOfAll sampleTerms < 2 := by decide
  have hread := parseQuery_searchText sampleTerms_written hlimit
  rw [htext] at hread
  exact ⟨hlimit, htext, hread⟩

end Queries

end SplQuery
