import SplQuery.Proofs.Reading.Meaning
import SplQuery.Proofs.Search.Terms
import SplQuery.Proofs.Search.Written

/-!
# What the trees of terms mean

The tree of a term means that term, but for places. Values are read off the text under a node, so
trivia at the ends of that text does not matter.

* `MeansTerm` — a tree means a term, wherever it is placed and whatever trivia is in it.
* `MeansTerms` — trees, with words and parentheses among them, mean terms.
-/

namespace SplQuery

open Meaning Placed Grammar

/-! ## Views of a tree with a known bare form -/

namespace Placed

variable {p : Placed} {shape : Shape} {ts : List Tree} {k : Kind} {w : String}

theorem leaves_of_isTrivia {ps : List Placed} (h : ∀ p ∈ ps, p.isTrivia = true) :
    ∀ l ∈ leavesOfAll ps, l.1.isTrivia = true := by
  induction ps with
  | nil => exact List.forall_mem_nil _
  | cons p ps ih =>
    obtain ⟨hp, hps⟩ := List.forall_mem_cons.mp h
    cases p with
    | leaf span kind text =>
      rw [leavesOfAll, leaves]
      exact List.forall_mem_cons.mpr ⟨hp, ih hps⟩
    | node => cases hp

/-- Trivia at both ends is dropped. -/
theorem dropOuterTrivia_append {as bs : List (Kind × String)} {l : Kind × String}
    (has : ∀ a ∈ as, a.1.isTrivia = true) (hbs : ∀ b ∈ bs, b.1.isTrivia = true)
    (hl : l.1.isTrivia = false) : dropOuterTrivia (as ++ l :: bs) = [l] := by
  have hfirst : (as ++ l :: bs).dropWhile (·.1.isTrivia) = l :: bs := by
    rw [List.dropWhile_append_of_pos has, List.dropWhile_cons_of_neg]
    rw [hl]
    exact Bool.false_ne_true
  have hlast : (bs.reverse ++ [l]).dropWhile (·.1.isTrivia) = [l] := by
    rw [List.dropWhile_append_of_pos (fun b hb => hbs b (List.mem_reverse.mp hb)),
      List.dropWhile_cons_of_neg]
    rw [hl]
    exact Bool.false_ne_true
  rw [dropOuterTrivia, hfirst, List.reverse_cons, hlast]
  rfl

/-- The text of a node around one lexeme is the text of that lexeme. -/
theorem text_of_bare (h : p.bare = [.node shape [.leaf k w]]) : p.text = w := by
  obtain ⟨span, core?, ps, qs, rfl, hsolid, hqs⟩ := node_of_bare h
  obtain _ | @⟨q, _, _, _, hq, _ | _⟩ := hqs
  obtain ⟨⟨place, rfl⟩, hk⟩ := leaf_of_bare hq
  obtain ⟨as, bs, rfl, has, -, hbs⟩ := List.filter_eq_cons_iff.mp hsolid
  have htrivia {cs : List Placed} (hcs : ∀ p ∈ cs, ¬(!p.isTrivia) = true) :
      ∀ l ∈ leavesOfAll cs, l.1.isTrivia = true :=
    leaves_of_isTrivia fun p hp => by simpa using hcs p hp
  have happend (as bs : List Placed) :
      leavesOfAll (as ++ bs) = leavesOfAll as ++ leavesOfAll bs := by
    induction as with
    | nil => rfl
    | cons a as ih => rw [List.cons_append, leavesOfAll, ih, leavesOfAll, List.append_assoc]
  have hleaves : (Placed.node span core? shape (as ++ .leaf place k w :: bs)).leaves =
      leavesOfAll as ++ (k, w) :: leavesOfAll bs := by
    rw [leaves, happend, leavesOfAll, leaves]
    rfl
  rw [text, hleaves, dropOuterTrivia_append (htrivia has)
    (htrivia (List.filter_eq_nil_iff.mp hbs)) hk]
  exact String.empty_append

end Placed

/-! ## Values -/

section Values

variable {p : Placed} {value w : String} {k : Kind}

theorem quotedValue?_of_bare (h : p.bare = [valueTree k w]) :
    (quotedValue? p).map (·.text) = if k = .stringLiteral then some w else none := by
  obtain ⟨span, core?, ps, qs, rfl, hsolid, hqs⟩ := node_of_bare h
  obtain _ | @⟨q, _, _, _, hq, _ | _⟩ := hqs
  obtain ⟨⟨place, rfl⟩, hk⟩ := leaf_of_bare hq
  have hlexemes : (Placed.node span core? .searchValue ps).lexemes = [⟨k, place.start, w⟩] := by
    rw [lexemes_eq, hsolid, List.filterMap_cons, lexeme?, if_neg (Bool.eq_false_iff.mp hk)]
    rfl
  rw [quotedValue?, hlexemes]
  by_cases hstring : k = .stringLiteral
  · rw [if_pos hstring]
    simp only [hstring, if_true, Option.map_some]
  · rw [if_neg hstring]
    simp only [hstring, if_false, Option.map_none]

theorem Spelling.isSome_quotedValue? (h : p.bare = [valueTree k w]) :
    (quotedValue? p).isSome = (k == .stringLiteral) := by
  rw [← Option.isSome_map (f := Lexeme.text), quotedValue?_of_bare h]
  by_cases hstring : k = .stringLiteral
  · rw [if_pos hstring, hstring]
    rfl
  · rw [if_neg hstring, beq_eq_false_iff_ne.mpr hstring]
    rfl

/-- A value that is written is read back. -/
theorem Spelling.searchText (hw : Spelling value k w) (h : p.bare = [valueTree k w]) :
    Meaning.searchText p = value := by
  have hquoted := quotedValue?_of_bare h
  cases hw with
  | bare =>
    rw [if_neg (by decide), Option.map_eq_none_iff] at hquoted
    rw [Meaning.searchText, hquoted]
    exact text_of_bare h
  | quoted =>
    rw [if_pos rfl, Option.map_eq_some_iff] at hquoted
    obtain ⟨l, hl, htext⟩ := hquoted
    rw [Meaning.searchText, hl]
    change Text.unquote l.text = value
    rw [htext, quotedText]
    exact Text.unquote_quote (.inl rfl) value

end Values

/-! ## Terms -/

/-- A node of a term that means a term, but for places, wherever it stands. -/
structure MeansTerm (T : Tree) (t : Term) : Prop where
  node : ∃ shape ts, T = .node shape ts ∧ shape.isTerm = true
  meaning : ∀ p : Placed, p.bare = [T] →
    ∃ t', p.meaning = .term t' ∧ t'.unplaced = t.unplaced

/-- Trees that mean terms, with words and parentheses among them. -/
inductive MeansTerms : List Tree → List Term → Prop where
  | nil : MeansTerms [] []
  | leaf {k : Kind} {w : String} {Ts : List Tree} {ts : List Term} (h : MeansTerms Ts ts) :
      MeansTerms (.leaf k w :: Ts) ts
  | cons {T : Tree} {t : Term} {Ts : List Tree} {ts : List Term} (hT : MeansTerm T t)
      (h : MeansTerms Ts ts) : MeansTerms (T :: Ts) (t :: ts)

section Terms

variable {T U : Tree} {Ts Us : List Tree} {t : Term} {ts us : List Term} {k l : Kind}
  {w : String} {p : Placed} {ps : List Placed} {span : Span} {core? : Option Span} {shape : Shape}

theorem MeansTerms.append (h : MeansTerms Ts ts) (h' : MeansTerms Us us) :
    MeansTerms (Ts ++ Us) (ts ++ us) := by
  induction h with
  | nil => exact h'
  | leaf _ ih => exact .leaf ih
  | cons hT _ ih => exact .cons hT ih

/-- A node of a term means what is made of its parts. -/
theorem meaning_of_term? (hshape : shape.isTerm = true) (hquery : shape ≠ .subsearch)
    (h : Meaning.term? (.node span core? shape ps) (partsOfAll ps) shape = some t) :
    (Placed.node span core? shape ps).meaning = .term t := by
  have hexpression : shape.isExpression = false := by
    cases shape <;> first | rfl | cases hshape
  rw [Placed.meaning, Meaning.ofNode]
  · rw [hexpression, if_neg Bool.false_ne_true, if_pos hshape, h]
    rfl
  all_goals
    rintro rfl
    first | exact absurd rfl hquery | cases hshape

/-- As a part of a node, such a tree is a term. -/
theorem MeansTerm.part (h : MeansTerm T t) (hp : p.bare = [T]) :
    (p.shape?.any Shape.isTerm) = true ∧
      ∃ t', (Part.mk p p.meaning).term? = some t' ∧ t'.unplaced = t.unplaced := by
  obtain ⟨shape, ts, rfl, hshape⟩ := h.node
  obtain ⟨t', ht, ht'⟩ := h.meaning p hp
  refine ⟨?_, t', ?_, ht'⟩
  · rw [shape?_of_bare hp]
    exact hshape
  · rw [Part.term?, ht]

theorem terms_leaf {place : Span} :
    terms (partsOfAll (.leaf place k w :: ps)) = terms (partsOfAll ps) := by
  rw [terms, partsOfAll, List.filter_cons_of_neg Bool.false_ne_true, ← terms]

theorem terms_cons (hT : MeansTerm T t) (hp : p.bare = [T]) :
    ∃ t', terms (partsOfAll (p :: ps)) = t' :: terms (partsOfAll ps) ∧
      t'.unplaced = t.unplaced := by
  obtain ⟨hshape, t', ht, ht'⟩ := hT.part hp
  refine ⟨t', ?_, ht'⟩
  rw [terms, partsOfAll, List.filter_cons_of_pos (by exact hshape), List.filterMap_cons_some ht,
    ← terms]

/-- The terms among the parts of a node are those that its trees mean. -/
theorem terms_of_trees (h : MeansTerms Ts ts)
    (hps : List.Forall₂ (fun p T => p.bare = [T]) ps Ts) :
    (terms (partsOfAll ps)).map Term.unplaced = ts.map Term.unplaced := by
  induction h generalizing ps with
  | nil =>
    cases hps
    rfl
  | leaf _ ih =>
    obtain _ | @⟨p, _, _, _, hp, hps⟩ := hps
    obtain ⟨⟨_, rfl⟩, -⟩ := leaf_of_bare hp
    rw [terms_leaf]
    exact ih hps
  | cons hT _ ih =>
    obtain _ | @⟨p, _, ps, _, hp, hps⟩ := hps
    obtain ⟨t', hterms, ht'⟩ := terms_cons hT hp
    rw [hterms, List.map_cons, List.map_cons, ht', ih hps]

theorem terms_eq : terms (partsOfAll ps) = terms (partsOfAll (solid ps)) := by
  rw [terms, terms, filter_parts]
  exact fun _ hp => by rw [shape?_of_isTrivia hp]; rfl

/-- The terms under a node are those that its trees mean. -/
theorem terms_of_bare (h : MeansTerms Ts ts) {qs : List Placed} (hsolid : solid ps = qs)
    (hqs : List.Forall₂ (fun p T => p.bare = [T]) qs Ts) :
    (terms (partsOfAll ps)).map Term.unplaced = ts.map Term.unplaced := by
  rw [terms_eq, hsolid]
  exact terms_of_trees h hqs

theorem relocateAll_unplaced {ts us : List Term} (h : ts.map Term.unplaced = us.map Term.unplaced) :
    Term.relocateAll (fun _ => default) ts = Term.relocateAll (fun _ => default) us := by
  rw [Term.relocateAll_eq_map, Term.relocateAll_eq_map]
  exact h

/-! ## Each kind of term -/

theorem meansTerm_or {place : Span} (h : MeansTerms Ts ts) :
    MeansTerm (.node .searchOr Ts) (.or ts place) := by
  refine ⟨⟨_, _, rfl, rfl⟩, fun p hp => ?_⟩
  obtain ⟨span, core?, ps, qs, rfl, hsolid, hqs⟩ := node_of_bare hp
  refine ⟨.or (terms (partsOfAll ps)) (Placed.node span core? .searchOr ps).core,
    meaning_of_term? rfl (by decide) rfl, ?_⟩
  exact congrArg (Term.or · default) (relocateAll_unplaced (terms_of_bare h hsolid hqs))

theorem meansTerm_group {place : Span} (h : MeansTerms Ts ts) :
    MeansTerm (.node .searchGroup Ts) (.group ts place) := by
  refine ⟨⟨_, _, rfl, rfl⟩, fun p hp => ?_⟩
  obtain ⟨span, core?, ps, qs, rfl, hsolid, hqs⟩ := node_of_bare hp
  refine ⟨.group (terms (partsOfAll ps)) (Placed.node span core? .searchGroup ps).core,
    meaning_of_term? rfl (by decide) rfl, ?_⟩
  exact congrArg (Term.group · default) (relocateAll_unplaced (terms_of_bare h hsolid hqs))

theorem meansTerm_not {place : Span} (h : MeansTerm T t) :
    MeansTerm (.node .searchNot [.leaf k w, T]) (.not t place) := by
  refine ⟨⟨_, _, rfl, rfl⟩, fun p hp => ?_⟩
  obtain ⟨span, core?, ps, qs, rfl, hsolid, hqs⟩ := node_of_bare hp
  obtain _ | @⟨a, _, _, _, ha, _ | @⟨b, _, _, _, hb, _ | _⟩⟩ := hqs
  obtain ⟨⟨_, rfl⟩, -⟩ := leaf_of_bare ha
  obtain ⟨hshape, t', ht, ht'⟩ := h.part hb
  have hfind : (partsOfAll ps).find? (fun p => p.tree.shape?.any Shape.isTerm) =
      some ⟨b, b.meaning⟩ := by
    rw [find?_parts (fun _ hp => by rw [shape?_of_isTrivia hp]; rfl), hsolid, partsOfAll,
      List.find?_cons_of_neg Bool.false_ne_true, partsOfAll,
      List.find?_cons_of_pos (by exact hshape)]
  refine ⟨.not t' (Placed.node span core? .searchNot ps).core,
    meaning_of_term? rfl (by decide) ?_, congrArg (Term.not · default) ht'⟩
  rw [Meaning.term?, hfind]
  change (Part.mk b b.meaning).term?.bind _ = _
  rw [ht]
  rfl

theorem meansTerm_keyword {value : String} {place : Span} (hw : Spelling value k w) :
    MeansTerm (.node .searchTerm [valueTree k w])
      (.keyword value (k == .stringLiteral) place) := by
  refine ⟨⟨_, _, rfl, rfl⟩, fun p hp => ?_⟩
  obtain ⟨span, core?, ps, qs, rfl, hsolid, hqs⟩ := node_of_bare hp
  obtain _ | @⟨a, _, _, _, ha, _ | _⟩ := hqs
  have hvalue : (Placed.node span core? .searchTerm ps).node? .searchValue = some a := by
    rw [node?, ← List.head?_filter, ← nodesOf, nodesOf_eq, hsolid,
      List.filter_cons_of_pos (isNode_of_bare ha)]
    rfl
  refine ⟨.keyword value (k == .stringLiteral) (Placed.node span core? .searchTerm ps).core,
    meaning_of_term? rfl (by decide) ?_, rfl⟩
  rw [Meaning.term?, hvalue]
  change some (Term.keyword (searchText a) (quotedValue? a).isSome _) = _
  rw [hw.searchText ha, Spelling.isSome_quotedValue? ha]

theorem meansTerm_comparison {field op value f v : String} {x : Kind} {place : Span}
    (hf : Spelling field x f) (hop : k.isComparison = true) (hv : Spelling value l v) :
    MeansTerm (.node .searchComparison [valueTree x f, .leaf k op, valueTree l v])
      (.comparison field op value place) := by
  refine ⟨⟨_, _, rfl, rfl⟩, fun p hp => ?_⟩
  obtain ⟨span, core?, ps, qs, rfl, hsolid, hqs⟩ := node_of_bare hp
  obtain _ | @⟨a, _, _, _, ha, _ | @⟨b, _, _, _, hb, _ | @⟨c, _, _, _, hc, _ | _⟩⟩⟩ := hqs
  obtain ⟨⟨opPlace, rfl⟩, hk⟩ := leaf_of_bare hb
  have hvalues : (Placed.node span core? .searchComparison ps).nodesOf .searchValue = [a, c] := by
    rw [nodesOf_eq, hsolid, List.filter_cons_of_pos (isNode_of_bare ha),
      List.filter_cons_of_neg (by exact Bool.false_ne_true),
      List.filter_cons_of_pos (isNode_of_bare hc)]
    rfl
  have hlexemes : (Placed.node span core? .searchComparison ps).lexemes =
      [⟨k, opPlace.start, op⟩] := by
    rw [lexemes_eq, hsolid, List.filterMap_cons_none (lexeme?_of_bare ha), List.filterMap_cons,
      lexeme?, if_neg (Bool.eq_false_iff.mp hk), List.filterMap_cons_none (lexeme?_of_bare hc)]
    rfl
  refine ⟨.comparison field op value (Placed.node span core? .searchComparison ps).core,
    meaning_of_term? rfl (by decide) ?_, rfl⟩
  rw [Meaning.term?, hvalues, hlexemes, List.find?_cons_of_pos (by exact hop)]
  change some (Term.comparison (searchText a) op (searchText c) _) = _
  rw [hf.searchText ha, hv.searchText hc]

/-! ## Lists of values -/

/-- The values between the commas and parentheses of a list are those that were written. -/
theorem values_of_trees {values : List String} {es : List (Kind × String)}
    (hes : List.Forall₂ (fun value e => Spelling value e.1 e.2) values es)
    (hps : List.Forall₂ (fun p T => p.bare = [T]) ps (valueTrees es ++ [.leaf k w])) :
    (ps.filter (·.isNode .searchValue)).map searchText = values := by
  induction hes generalizing ps with
  | nil =>
    obtain _ | @⟨a, _, _, _, ha, _ | _⟩ := hps
    obtain ⟨⟨_, rfl⟩, -⟩ := leaf_of_bare ha
    rfl
  | @cons value e values es he hes ih =>
    cases es with
    | nil =>
      cases hes
      obtain _ | @⟨a, _, _, _, ha, _ | @⟨b, _, _, _, hb, _ | _⟩⟩ := hps
      obtain ⟨⟨_, rfl⟩, -⟩ := leaf_of_bare hb
      rw [List.filter_cons_of_pos (isNode_of_bare ha), List.map_cons, he.searchText ha]
      rfl
    | cons d ds =>
      rw [valueTrees_cons_cons] at hps
      obtain _ | @⟨a, _, _, _, ha, _ | @⟨b, _, _, _, hb, hps⟩⟩ := hps
      obtain ⟨⟨_, rfl⟩, -⟩ := leaf_of_bare hb
      rw [List.filter_cons_of_pos (isNode_of_bare ha), List.map_cons, he.searchText ha,
        List.filter_cons_of_neg (by exact Bool.false_ne_true), ih hps]

theorem meansTerm_oneOf {field f inWord : String} {x : Kind} {values : List String}
    {es : List (Kind × String)} {place : Span} (hf : Spelling field x f)
    (hes : List.Forall₂ (fun value e => Spelling value e.1 e.2) values es) :
    MeansTerm (oneOfTree x f inWord es) (.oneOf field values place) := by
  refine ⟨⟨_, _, rfl, rfl⟩, fun p hp => ?_⟩
  obtain ⟨span, core?, ps, qs, rfl, hsolid, hqs⟩ := node_of_bare hp
  obtain _ | @⟨a, _, _, _, ha, _ | @⟨b, _, _, _, hb, _ | @⟨c, _, rest, _, hc, hqs⟩⟩⟩ := hqs
  obtain ⟨⟨_, rfl⟩, -⟩ := leaf_of_bare hb
  obtain ⟨⟨_, rfl⟩, -⟩ := leaf_of_bare hc
  have hvalues : (Placed.node span core? .searchIn ps).nodesOf .searchValue =
      a :: rest.filter (·.isNode .searchValue) := by
    rw [nodesOf_eq, hsolid, List.filter_cons_of_pos (isNode_of_bare ha),
      List.filter_cons_of_neg (by exact Bool.false_ne_true),
      List.filter_cons_of_neg (by exact Bool.false_ne_true)]
  refine ⟨.oneOf field values (Placed.node span core? .searchIn ps).core,
    meaning_of_term? rfl (by decide) ?_, rfl⟩
  rw [Meaning.term?, hvalues]
  change some (Term.oneOf (searchText a) _ _) = _
  rw [hf.searchText ha, values_of_trees hes hqs]

end Terms

end SplQuery
