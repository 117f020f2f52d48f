import SplQuery.Proofs.Fair.Command
import SplQuery.Proofs.Fair.Query
import SplQuery.Query.Parse

/-!
# What a parse finds lies where it was found

Whatever a text is, and however few levels there may be, the query that is found in it lies within
the text: each of its parts stands within the part that it belongs to, and the stages of each query
come one after another. This holds of what any fair tree stands for, from the leaves to the root.

* `Placed.Fair.blank` — a tree without a lexeme stands for nothing that has a place.
* `Placed.Settled.of_everywhere` — what a fair tree stands for lies within its core.
* `parseQuery_lies` — the query that is found in a text lies within the text.
-/

namespace SplQuery

open SplQuery.Tree SplQuery.Span Meaning

namespace Shape

theorem isSolid_of_isExpression (s : Shape) (h : s.isExpression = true) : s.isSolid = true := by
  cases s <;> first | rfl | cases h

/-- What is put around other trees is an expression or a term. -/
theorem isWrapped_of_other (s : Shape) (hexpression : s.isExpression = false)
    (hterm : s.isTerm = false) : s.isWrapped = false := by
  cases s <;> first | rfl | (cases hexpression; done) | cases hterm

end Shape

/-! ## One after another -/

namespace Tree

theorem le_start_of_mem_placeAll {p : Placed} {ts : List Tree} {start : Nat}
    (h : p ∈ placeAll start ts) : start ≤ p.span.start := by
  obtain ⟨pre, t, post, rfl, rfl⟩ := mem_placeAll h
  rw [span_place]
  exact Nat.le_add_right _ _

/-- Trees that are placed one after another do not overlap. -/
theorem pairwise_placeAll (start : Nat) (ts : List Tree) :
    (placeAll start ts).Pairwise fun p q => p.span.stop ≤ q.span.start := by
  induction ts generalizing start with
  | nil => exact .nil
  | cons t ts ih => exact .cons (fun q hq => le_start_of_mem_placeAll hq) (ih _)

end Tree

namespace Placed

variable {n p : Placed}

/-- What a tree stands for lies within its core. Without a lexeme it stands for nothing that has a
place, unless it is a query or a search. -/
structure Settled (p : Placed) : Prop where
  lies : p.meaning.Lies p.core
  blank : p.core? = none → p.isOpen = false → p.meaning.isBlank = true

/-- A node of this shape stands for a query. -/
theorem exists_pipeline (h : p.isNode .pipeline = true) : ∃ q, p.meaning = .pipeline q := by
  cases p with
  | leaf => cases h
  | node span core? shape children =>
    obtain rfl : shape = .pipeline := Option.some.inj (eq_of_beq h)
    exact ⟨_, rfl⟩

/-- A node of this shape stands for a search. -/
theorem exists_search (h : p.isNode .searchExpr = true) : ∃ s, p.meaning = .search s := by
  cases p with
  | leaf => cases h
  | node span core? shape children =>
    obtain rfl : shape = .searchExpr := Option.some.inj (eq_of_beq h)
    exact ⟨_, rfl⟩

theorem mem_partsOfAll {ps : List Placed} {part : Part} (h : part ∈ partsOfAll ps) :
    ∃ p ∈ ps, part = ⟨p, p.meaning⟩ := by
  rw [partsOfAll_eq_map] at h
  obtain ⟨p, hp, rfl⟩ := List.mem_map.mp h
  exact ⟨p, hp, rfl⟩

theorem tree_mem_of_mem_partsOfAll {ps : List Placed} :
    ∀ part ∈ partsOfAll ps, part.tree ∈ ps := by
  intro part hpart
  obtain ⟨p, hp, rfl⟩ := mem_partsOfAll hpart
  exact hp

namespace Fair

/-- Without a lexeme there is nothing in a node that must have one. -/
theorem no_solid_child {shape : Shape} (h : n.Fair) (hcore : n.core? = none) (hp : p ∈ n.children)
    (hshape : p.isNode shape = true) (hsolid : shape.isSolid = true) : False := by
  have hsome := (h.covers_solid hp hshape hsolid).outer
  rw [hcore] at hsome
  cases hsome

theorem arguments_of_blank (h : n.Fair) (hcore : n.core? = none) :
    arguments (partsOfAll n.children) = [] := by
  have hparts : expressionParts (partsOfAll n.children) = [] := by
    refine List.filter_eq_nil_iff.mpr fun part hpart hexpression => ?_
    obtain ⟨p, hp, rfl⟩ := mem_partsOfAll hpart
    obtain ⟨shape, hshape, hexpression⟩ := (Option.any_eq_true _ _).mp hexpression
    exact h.no_solid_child hcore hp (beq_iff_eq.mpr hshape)
      (Shape.isSolid_of_isExpression shape hexpression)
  rw [arguments, hparts]
  rfl

theorem blank (h : n.Fair) (hcore : n.core? = none) (hopen : n.isOpen = false) :
    n.meaning.isBlank = true := by
  have hfair := h
  obtain ⟨reports, start, t, rfl, ht⟩ := hfair
  cases t with
  | leaf => rfl
  | node shape children =>
    have hhollow : shape.isSolid = false := Bool.eq_false_iff.mpr fun hsolid => by
      have hsome := h.solid (beq_self_eq_true (some shape)) hsolid
      rw [hcore] at hsome
      cases hsome
    cases shape with
    | root => exact absurd rfl ht.1.inner
    | pipeline => cases hopen
    | searchExpr => cases hopen
    | argList =>
      change (Meaning.expressions (arguments (partsOfAll (placeAll start children)))).isBlank = true
      have hnone : arguments (partsOfAll (placeAll start children)) = [] :=
        h.arguments_of_blank hcore
      rw [hnone]
      rfl
    | searchTerm =>
      change (Option.elim (term? ((Tree.node .searchTerm children).place start) _ .searchTerm)
        Meaning.nothing Meaning.term).isBlank = true
      rw [term?]
      cases hvalue : ((Tree.node .searchTerm children).place start).node? .searchValue with
      | none => rfl
      | some value =>
        obtain ⟨hmem, hshape⟩ := mem_of_node? hvalue
        exact (h.no_solid_child hcore hmem hshape rfl).elim
    -- shapes that stand for nothing by themselves, then those that must have a lexeme
    | error | optionValue | fieldList | sortField => rfl
    | _ => cases hhollow

/-- A child fits into its node, unless it is a query or a search in a node that is put around other
trees. -/
theorem fits (h : n.Fair) (hp : p ∈ n.children) (hsettled : p.Settled)
    (hopen : p.isOpen = true → ∀ shape ∈ n.shape?, shape.isWrapped = false) :
    (Part.mk p p.meaning).Fits n.core := by
  refine ⟨hsettled.lies, fun hblank => ?_⟩
  cases hcore : p.core? with
  | some c => exact (h.covers hp (by rw [hcore]; rfl)).within
  | none =>
    have hisOpen : p.isOpen = true := Bool.not_eq_false _ ▸ fun hclosed => by
      rw [hsettled.blank hcore hclosed] at hblank
      cases hblank
    exact h.within_child hp (hopen hisOpen) (.inr hisOpen)

section Nodes

variable (h : n.Fair) (hchildren : ∀ p ∈ n.children, p.Settled)

include h hchildren

/-- The stages of a query come one after another. -/
theorem pairwise_stages (hopen : ∀ shape ∈ n.shape?, shape.isWrapped = false) :
    ((partsOfAll n.children).filterMap (·.stage?)).Pairwise
      fun s t => s.span.stop ≤ t.span.start := by
  have hstage {p : Placed} (hp : p ∈ n.children) {s : Stage}
      (hs : (Part.mk p p.meaning).stage? = some s) : s.span.Within p.span :=
    ((h.fits hp (hchildren p hp) fun _ => hopen).stage s hs).2.trans (h.child hp).within_span
  have hplaced : n.children.Pairwise fun p q => p.span.stop ≤ q.span.start := by
    obtain ⟨reports, start, t, rfl, -⟩ := h
    cases t with
    | leaf => exact .nil
    | node shape children => exact pairwise_placeAll start children
  rw [partsOfAll_eq_map, List.pairwise_filterMap, List.pairwise_map]
  refine hplaced.imp_of_mem fun hp hq hle s hs t ht => ?_
  exact Nat.le_trans (hstage hp hs).stop (Nat.le_trans hle (hstage hq ht).start)

/-- A part that is neither a query nor a search fits. -/
theorem closed_fits :
    ∀ part ∈ partsOfAll n.children, part.tree.isOpen = false → part.Fits n.core := by
  intro part hpart hopen
  obtain ⟨p, hp, rfl⟩ := mem_partsOfAll hpart
  exact h.fits hp (hchildren p hp) fun hisOpen =>
    absurd (hopen.symm.trans hisOpen) Bool.false_ne_true

/-- In a node that is not put around other trees every part fits. -/
theorem parts_fit {shape : Shape} (hshape : n.shape? = some shape)
    (hwrapped : shape.isWrapped = false) : ∀ part ∈ partsOfAll n.children, part.Fits n.core := by
  intro part hpart
  obtain ⟨p, hp, rfl⟩ := mem_partsOfAll hpart
  refine h.fits hp (hchildren p hp) fun _ shape' hshape' => ?_
  obtain rfl : shape = shape' := Option.some.inj (hshape.symm.trans hshape')
  exact hwrapped

theorem query_of_stages_lies (hshape : n.shape? = some .pipeline) :
    Pipeline.Lies n.core (.mk ((partsOfAll n.children).filterMap (·.stage?)) n.core) := by
  refine ⟨h.ordered, Stage.liesAll_iff.mpr fun s hs => ?_, h.pairwise_stages hchildren ?_⟩
  · obtain ⟨part, hpart, hs⟩ := List.mem_filterMap.mp hs
    exact ((h.parts_fit hchildren hshape rfl part hpart).stage s hs).1
  · intro shape hshape'
    obtain rfl : .pipeline = shape := Option.some.inj (hshape.symm.trans hshape')
    rfl

theorem subsearch_lies (hshape : n.shape? = some .subsearch) :
    Pipeline.Lies n.core (((part? .pipeline (partsOfAll n.children)).bind (·.pipeline?)).getD
      (.mk [] n.core)) := by
  have hquery : ∀ q ∈ (part? .pipeline (partsOfAll n.children)).bind (·.pipeline?),
      q.Lies n.core := query_lies (h.parts_fit hchildren hshape rfl)
  cases hpart : (part? .pipeline (partsOfAll n.children)).bind (·.pipeline?) with
  | none => exact ⟨h.ordered, trivial, .nil⟩
  | some q => exact hquery q hpart

theorem whereClause_lies (hshape : n.shape? = some .whereClause) :
    Meaning.Lies n.core
      ((part? .searchExpr (partsOfAll n.children)).elim .nothing (·.meaning)) := by
  cases hpart : part? .searchExpr (partsOfAll n.children) with
  | none => trivial
  | some part =>
    obtain ⟨hpart, hnode⟩ := mem_of_part? hpart
    have hfits := h.parts_fit hchildren hshape rfl part hpart
    obtain ⟨p, -, rfl⟩ := mem_partsOfAll hpart
    obtain ⟨s, hs⟩ := exists_search hnode
    have hsearch : (Part.mk p p.meaning).search? = some s := by
      rw [hs]
      rfl
    change p.meaning.Lies n.core
    rw [hs]
    exact hfits.search s hsearch

/-- An expression, a term or a command. -/
theorem formed_lies {shape : Shape} (hshape : n.shape? = some shape) :
    Meaning.Lies n.core (if shape.isExpression then
        (expression? n (partsOfAll n.children) shape).elim .nothing .expression
      else if shape.isTerm then (term? n (partsOfAll n.children) shape).elim .nothing .term
      else (command? n (partsOfAll n.children) shape).elim .nothing .command) := by
  have hclosed := h.closed_fits hchildren
  split
  · cases he : expression? n (partsOfAll n.children) shape with
    | none => trivial
    | some e => exact expression?_lies h hclosed shape e he
  · next hexpression =>
    split
    · cases ht : term? n (partsOfAll n.children) shape with
      | none => trivial
      | some t => exact term?_lies h hclosed shape t ht
    · next hterm =>
      cases hc : command? n (partsOfAll n.children) shape with
      | none => trivial
      | some c =>
        have hwrapped := shape.isWrapped_of_other (Bool.not_eq_true _ ▸ hexpression)
          (Bool.not_eq_true _ ▸ hterm)
        exact command?_lies h tree_mem_of_mem_partsOfAll
          (h.parts_fit hchildren hshape hwrapped) shape c hc

theorem ofNode_lies {shape : Shape} (hshape : n.shape? = some shape) :
    (ofNode n shape (partsOfAll n.children)).Lies n.core := by
  have hclosed := h.closed_fits hchildren
  cases shape with
  | root =>
    -- only the whole tree has this shape
    obtain ⟨reports, start, t, rfl, hfair⟩ := h
    cases t with
    | leaf => cases hshape
    | node shape children =>
      obtain rfl : shape = .root := Option.some.inj hshape
      exact absurd rfl hfair.1.inner
  | pipeline => exact h.query_of_stages_lies hchildren hshape
  | subsearch => exact h.subsearch_lies hchildren hshape
  | searchExpr => exact searchOf_lies h hclosed
  | whereClause => exact h.whereClause_lies hchildren hshape
  | argList => exact arguments_lies hclosed
  | assignment =>
    rw [ofNode]
    cases ha : assignment? n (partsOfAll n.children) with
    | none => trivial
    | some a => exact assignment?_lies h hclosed a ha
  | aggregation =>
    rw [ofNode]
    cases ha : aggregation? n (partsOfAll n.children) with
    | none => trivial
    | some a => exact aggregation?_lies h hclosed a ha
  | _ => exact h.formed_lies hchildren hshape

theorem settled_of_children : n.Settled := by
  refine ⟨?_, h.blank⟩
  cases n with
  | leaf => trivial
  | node span core? shape children => exact h.ofNode_lies hchildren rfl

end Nodes

end Fair

/-- What a fair tree stands for lies within its core. -/
theorem Settled.of_everywhere {reports : List Diagnostic} {start : Nat} {t : Tree}
    (h : t.Everywhere (Tree.Fair reports) start) : (t.place start).Settled := by
  induction t using Tree.rec (motive_2 := fun ts => ∀ start,
    EverywhereAll (Tree.Fair reports) start ts → ∀ p ∈ placeAll start ts, p.Settled)
    generalizing start with
  | leaf kind text => exact Fair.settled_of_children ⟨reports, start, _, rfl, h⟩ nofun
  | node shape children ih =>
    exact Fair.settled_of_children ⟨reports, start, _, rfl, h⟩ (ih start h.2)
  | nil =>
    rename_i hp
    cases hp
  | cons t ts iht ihts =>
    rename_i start hts p hp
    rw [placeAll, List.mem_cons, span_place] at hp
    rcases hp with rfl | hp
    · exact iht hts.1
    · exact ihts _ hts.2 p hp

end Placed

/-! ## Whole queries -/

/-- The tree of a text takes as many bytes as the text has. -/
theorem width_parseTree (text : String) (limit : Nat) :
    (parseTree text limit).tree.width = text.utf8ByteSize := by
  have hleaves : (parseTree text limit).tree.leaves = (lex text).map Lexeme.entry :=
    Parse.leaves_ofLexemes _ _ _
  have htexts : ((lex text).map Lexeme.entry).flatMap (·.2.toList) = Lexeme.texts (lex text) :=
    List.flatMap_map _ _ _
  rw [Tree.width, text_eq_leaves, hleaves, htexts, lex_texts, Text.utf8ByteSize_eq_width]

/-- **What a parse finds lies where it was found**, whatever the text and however few levels there
may be: the query lies within the text, each of its parts within the part that it belongs to, and
the stages of each query come one after another. -/
theorem parseQuery_lies (text : String) (limit : Nat) :
    (parseQuery text limit).query.Lies ⟨0, text.utf8ByteSize⟩ := by
  obtain ⟨ts, htree, hfair⟩ := parseTree_fair text limit
  have hwidth : widthAll ts = text.utf8ByteSize := by
    rw [← width_parseTree text limit, htree, width_node]
  have hquery :
      (parseQuery text limit).query = ((parseTree text limit).tree.place 0).pipeline := rfl
  have hmeaning : ((node .root ts).place 0).meaning =
      (part? .pipeline (Placed.partsOfAll (placeAll 0 ts))).elim .nothing (·.meaning) := rfl
  rw [hquery, htree, Placed.pipeline, hmeaning]
  cases hpart : part? .pipeline (Placed.partsOfAll (placeAll 0 ts)) with
  | none => exact ⟨⟨Nat.le_refl _, Nat.le_refl _, Nat.zero_le _⟩, trivial, .nil⟩
  | some part =>
    obtain ⟨hmem, hnode⟩ := mem_of_part? hpart
    obtain ⟨p, hp, rfl⟩ := Placed.mem_partsOfAll hmem
    obtain ⟨q, hq⟩ := Placed.exists_pipeline hnode
    obtain ⟨pre, t, post, rfl, rfl⟩ := mem_placeAll hp
    have ht := (everywhereAll_append.mp hfair).2.1
    have hlies := (Placed.Settled.of_everywhere ht).lies
    have hspan := Placed.Fair.within_span ⟨_, _, t, rfl, ht⟩
    rw [span_place] at hspan
    rw [Option.elim_some, hq] at *
    refine Pipeline.Lies.mono hlies (hspan.trans ⟨Nat.zero_le _, Nat.le_add_right _ _, ?_⟩)
    rw [← hwidth, widthAll_append, widthAll_cons]
    change 0 + widthAll pre + t.width ≤ widthAll pre + (t.width + widthAll post)
    omega

end SplQuery
