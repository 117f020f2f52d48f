import SplQuery.Proofs.Formed.Query
import SplQuery.Proofs.Nested.Kept
import SplQuery.Proofs.Reading.Meaning

/-!
# The queries nested in what a node means

What a node stands for nests the queries directly under it for which there is a place, and those
that the nodes directly under it nest. Most nodes hold no queries at all; the others pick their
parts by shape, and in a tree that is formed they miss none.

So where nothing is wrong with a text, the queries nested in its query are those between brackets in
the tree, in the same order, but for those that their commands have no place for.

* `Placed.nests` — the queries that a part of a node nests directly in what the node stands for.
* `Placed.Formed.subqueries_eq` — what a node nests by what its children nest.
* `Placed.Formed.nested_eq` — what is nested in the meaning of a tree that is formed.
* `parseQuery_nested` — whole texts.
* `parseQuery_nested_overlooked` — a query that is not kept.
-/

namespace SplQuery

open Placed Shape

/-- The queries nested directly in what a node stands for. -/
def Meaning.subqueries : Meaning → List Pipeline
  | .term t => t.subqueries
  | .search s => s.subqueries
  | .command c => c.subqueries
  | .pipeline q => q.subqueries
  | _ => []

/-- The queries that a part of a node nests in what the node stands for; a query between brackets
nests itself. -/
def Placed.nests (p : Placed) : List Pipeline :=
  if p.isNode .subsearch then [p.pipeline] else p.meaning.subqueries

/-- A shape of nodes that hold no queries. -/
def Shape.isQuiet : Shape → Bool
  | .error | .root | .pipeline | .subsearch | .searchExpr | .searchOr | .searchNot | .searchGroup
  | .whereClause | .searchCommand | .tstatsCommand | .inputlookupCommand | .foreachCommand
  | .keywordCommand | .genericCommand => false
  | _ => true

/-! ## Nodes that hold no queries -/

namespace Shape

variable {s : Shape} {shapes : List Shape}

theorem isQuiet_of_isPlainPart (h : s.isPlainPart = true) : s.isQuiet = true := by
  cases s <;> first | rfl | cases h

theorem isQuiet_of_isExpression (h : s.isExpression = true) : s.isQuiet = true := by
  cases s <;> first | rfl | cases h

theorem isQuiet_of_isAggregating (h : s.isAggregating = true) : s.isQuiet = true := by
  cases s <;> first | rfl | cases h

/-- What is under a node that holds no queries holds none either. -/
theorem PartsFit.quiet (hs : s.isQuiet = true) (h : s.PartsFit shapes) : Only isQuiet shapes := by
  have hplain (h : Only isPlainPart shapes) : Only isQuiet shapes :=
    h.mono fun _ => isQuiet_of_isPlainPart
  have hexpressions (h : Only isExpression shapes) : Only isQuiet shapes :=
    h.mono fun _ => isQuiet_of_isExpression
  have hexpression (h : One isExpression shapes) : Only isQuiet shapes := hexpressions h.only
  cases s with
  | error | root | pipeline | subsearch | searchExpr | searchOr | searchNot | searchGroup
  | whereClause | searchCommand | tstatsCommand | inputlookupCommand | foreachCommand
  | keywordCommand | genericCommand => cases hs
  | unaryExpr | parenExpr | whereCommand => exact hexpression h
  | argList | inList => exact hexpressions h
  | binaryExpr =>
    obtain ⟨left, right, hleft, hright, rfl⟩ := h
    exact only_append.mpr ⟨hleft.only.mono fun _ => isQuiet_of_isExpression,
      hright.only.mono fun _ => isQuiet_of_isExpression⟩
  | callExpr => exact h.only.mono fun t ht => eq_of_beq ht ▸ rfl
  | fieldRef | literal =>
    obtain rfl := h
    exact only_nil
  | assignment =>
    obtain ⟨e, he, rfl⟩ := h
    exact List.forall_mem_cons.mpr ⟨rfl, he.only.mono fun _ => isQuiet_of_isExpression⟩
  | aggregation =>
    obtain ⟨names, hnames, rfl | rfl⟩ := h
    · exact hplain hnames
    · exact List.forall_mem_cons.mpr ⟨rfl, hnames.mono fun _ => isQuiet_of_isPlainPart⟩
  | evalCommand | fieldformatCommand => exact Only.mono h fun t ht => eq_of_beq ht ▸ rfl
  | statsCommand => exact Only.mono h fun _ => isQuiet_of_isAggregating
  | headCommand =>
    refine h.1.mono fun t ht => ?_
    exact (Bool.or_eq_true_iff.mp ht).elim isQuiet_of_isExpression isQuiet_of_isPlainPart
  | aliasedField =>
    obtain ⟨t, ht, rfl⟩ := h
    have hquiet := isQuiet_of_isPlainPart ht
    exact List.forall_mem_cons.mpr ⟨hquiet, only_singleton.mpr hquiet⟩
  | _ => exact hplain h

end Shape

namespace Meaning

variable {node : Placed} {parts : List Part} {shape : Shape}

/-- A term of values alone holds no queries. -/
theorem subqueries_of_term? (hshape : shape.isQuiet = true) {t : Term}
    (h : term? node parts shape = some t) : t.subqueries = [] := by
  cases shape with
  | searchComparison | searchTerm | searchMacro =>
    simp only [term?, Option.bind_eq_bind, Option.bind_eq_some_iff, Option.pure_def,
      Option.some.injEq] at h
    obtain ⟨_, -, h⟩ := h
    first
      | exact h ▸ rfl
      | obtain ⟨_, -, rfl⟩ := h
        rfl
  | searchIn =>
    rw [term?] at h
    split at h
    · cases h
    · exact Option.some.inj h ▸ rfl
  | searchOr | searchNot | searchGroup => cases hshape
  | _ => cases h

theorem subqueries_ofNode (hshape : shape.isQuiet = true) :
    (ofNode node shape parts).subqueries = [] := by
  have hexpression :
      ((expression? node parts shape).elim Meaning.nothing Meaning.expression).subqueries = [] := by
    cases expression? node parts shape <;> rfl
  have hterm : ((term? node parts shape).elim Meaning.nothing Meaning.term).subqueries = [] := by
    cases h : term? node parts shape with
    | none => rfl
    | some t => exact subqueries_of_term? hshape h
  cases shape with
  | error | root | pipeline | subsearch | searchExpr | searchOr | searchNot | searchGroup
  | whereClause | searchCommand | tstatsCommand | inputlookupCommand | foreachCommand
  | keywordCommand | genericCommand => cases hshape
  | binaryExpr | unaryExpr | parenExpr | callExpr | inList | fieldRef | literal =>
    exact hexpression
  | searchComparison | searchIn | searchTerm | searchMacro => exact hterm
  | assignment => rw [ofNode]; cases assignment? node parts <;> rfl
  | aggregation => rw [ofNode]; cases aggregation? node parts <;> rfl
  | _ => rfl

end Meaning

namespace Placed

variable {ps : List Placed} {p : Placed}

theorem nests_of_isQuiet (h : p.shape?.all isQuiet = true) : p.nests = [] := by
  cases p with
  | leaf => rfl
  | node span core? shape children =>
    have hne : ¬ (some shape == some Shape.subsearch) = true := fun heq => by
      obtain rfl := Option.some.inj (eq_of_beq heq)
      cases h
    rw [nests, isNode, shape?, if_neg hne]
    exact Meaning.subqueries_ofNode h

/-- Parts that hold no queries nest none. -/
theorem nests_of_only (h : Only isQuiet (content ps).parts) : ∀ p ∈ ps, p.nests = [] :=
  fun _ hp => nests_of_isQuiet (shape_of_only h hp)

/-! ## Parts by their shapes -/

/-- What is read off every part of a class and nests queries, read off all of them. -/
theorem flatMap_filterMap_parts {α : Type} {read : Part → Option α} {f : α → List Pipeline}
    (h : ∀ p ∈ ps, (read ⟨p, p.meaning⟩).elim [] f = p.nests) :
    ((partsOfAll ps).filterMap read).flatMap f = ps.flatMap nests := by
  rw [partsOfAll_eq_map, List.filterMap_map]
  induction ps with
  | nil => rfl
  | cons p ps ih =>
    obtain ⟨hp, hps⟩ := List.forall_mem_cons.mp h
    rw [List.flatMap_cons, ← hp, ← ih hps, List.filterMap_cons]
    cases hread : read ⟨p, p.meaning⟩ with
    | none => simp only [Function.comp_apply, hread, Option.elim_none, List.nil_append]
    | some a => simp only [Function.comp_apply, hread, Option.elim_some, List.flatMap_cons]

/-- Only the first node of a shape nests something. -/
theorem flatMap_take_one {shape : Shape} :
    ((ps.filter (·.isNode shape)).take 1).flatMap nests =
      (ps.find? (·.isNode shape)).elim [] nests := by
  rw [List.take_one, List.head?_filter]
  cases ps.find? (·.isNode shape) with
  | none => rfl
  | some p => exact List.flatMap_singleton nests p

/-- Where there is one node of a shape at the most and the others nest nothing, it is this node
that nests what there is. -/
theorem flatMap_nests_of_countP {shape : Shape}
    (hcount : (content ps).parts.countP (· == shape) ≤ 1)
    (hothers : ∀ p ∈ ps, p.isNode shape = false → p.nests = []) :
    ps.flatMap nests = (ps.find? (·.isNode shape)).elim [] nests := by
  simp only [countP_parts, ← isNode_eq_any] at hcount
  rw [← flatMap_take_one, List.take_of_length_le hcount, ← Room.heeded_of_none shape ps,
    Room.flatMap_heeded hothers, Room.heeded_of_none]
  rfl

/-! ## What parts stand for -/

/-- A search by itself or of a clause stands for a search, or for nothing. -/
theorem nests_search (h : p.isNode .searchExpr = true ∨ p.isNode .whereClause = true) :
    ((Part.mk p p.meaning).search?).elim [] (·.subqueries) = p.nests := by
  have hne : ¬ p.isNode .subsearch = true := fun hsub => by
    have hshape : p.shape? = some .subsearch := eq_of_beq hsub
    rw [isNode, isNode, hshape] at h
    exact h.elim Bool.noConfusion Bool.noConfusion
  rw [nests, if_neg hne]
  rcases meaning_of_search h with hmeaning | ⟨s, hmeaning⟩ <;> rw [hmeaning] <;> rfl

/-- A stage stands for what its node stands for. -/
theorem nests_stage (h : p.shape?.all isStage = true) :
    ((Part.mk p p.meaning).stage?).elim [] (·.subqueries) = p.nests := by
  cases p with
  | leaf => rfl
  | node span core? shape children => cases shape <;> first | rfl | cases h

/-- A term stands for what its node stands for, a query between brackets for itself. -/
theorem nests_term (h : p.shape?.all isTerm = true) :
    ((Part.mk p p.meaning).term?).elim [] (·.subqueries) = p.nests := by
  cases p with
  | leaf => rfl
  | node span core? shape children =>
    have hterm : (Part.term? ⟨.node span core? shape children,
          (Meaning.term? (.node span core? shape children) (partsOfAll children) shape).elim
            Meaning.nothing Meaning.term⟩).elim [] (·.subqueries) =
        ((Meaning.term? (.node span core? shape children) (partsOfAll children) shape).elim
            Meaning.nothing Meaning.term).subqueries := by
      cases Meaning.term? (.node span core? shape children) (partsOfAll children) shape <;> rfl
    cases shape <;> first | rfl | exact hterm | cases h

/-- A query between brackets always stands for a query. -/
theorem pipeline?_of_subsearch (h : p.isNode .subsearch = true) :
    (Part.mk p p.meaning).pipeline? = some p.pipeline := by
  obtain ⟨span, core?, children, rfl⟩ := eq_node_of_isNode h
  rfl

/-- The terms among the parts nest what is nested directly in the parts. -/
theorem subqueries_terms (h : Only isTerm (content ps).parts) :
    Term.subqueriesOfAll (Meaning.terms (partsOfAll ps)) = ps.flatMap nests := by
  have hflat (ts : List Term) : Term.subqueriesOfAll ts = ts.flatMap (·.subqueries) := by
    induction ts with
    | nil => rfl
    | cons t ts ih => rw [Term.subqueriesOfAll, ih, List.flatMap_cons]
  rw [hflat, Meaning.terms, List.filterMap_filter]
  refine flatMap_filterMap_parts fun p hp => ?_
  split
  · exact nests_term (shape_of_only h hp)
  · next hno =>
    cases p with
    | leaf => rfl
    | node span core? shape children => exact absurd (h _ (mem_parts hp rfl)) hno

end Placed

/-! ## Free arguments -/

namespace Arguments

/-- Only the values change when a value is read that stands by itself. -/
theorem addValue_eq (p : Progress) (tree : Placed) : (p.addValue tree).arguments =
    { p.arguments with positionals := (p.addValue tree).arguments.positionals } := by
  simp only [Progress.addValue]
  split
  · unfold nameLast
    split <;> rfl
  · split <;> rfl

/-- Only the values change when one is read that has another name. -/
theorem addAliased_eq (a : Arguments) (tree : Placed) :
    a.addAliased tree = { a with positionals := (a.addAliased tree).positionals } := by
  unfold addAliased
  split <;> rfl

/-- What an argument adds beside values is found by its shape. -/
structure Progress.Grows (p : Progress) (part : Part) (q : Progress) : Prop where
  options : q.arguments.options =
    if part.tree.isNode .optionArg then
      part.tree.option?.elim p.arguments.options fun o => p.arguments.options.insert o.1 o.2
    else p.arguments.options
  byFields : q.arguments.byFields = p.arguments.byFields ++
    if part.tree.isNode .byClause then part.tree.clauseItems.map (·.fieldRef) else []
  queries : q.arguments.queries = p.arguments.queries ++
    if part.tree.isNode .subsearch then part.pipeline?.toList else []

/-- Other arguments add nothing but values and a field after `over`. -/
theorem Progress.Grows.other {p q : Progress} {part : Part}
    (hoption : ¬part.tree.isNode .optionArg = true) (hby : ¬part.tree.isNode .byClause = true)
    (hsub : ¬part.tree.isNode .subsearch = true)
    (hrest : ∃ values field,
      q.arguments = { p.arguments with positionals := values, overField := field }) :
    p.Grows part q := by
  obtain ⟨values, field, hrest⟩ := hrest
  constructor
  · rw [if_neg hoption, hrest]
  · rw [if_neg hby, List.append_nil, hrest]
  · rw [if_neg hsub, List.append_nil, hrest]

theorem Progress.grows (p : Progress) (part : Part) : p.Grows part (p.add part) := by
  have hyes {s : Shape} (h : part.tree.shape? = some s) : part.tree.isNode s = true :=
    beq_iff_eq.mpr h
  have hno {s t : Shape} (h : part.tree.shape? = some s) (hne : s ≠ t) :
      ¬part.tree.isNode t = true := fun ht =>
    hne (Option.some.inj (h.symm.trans (eq_of_beq ht)))
  simp only [Progress.add]
  split
  · next h =>
    constructor
    · rw [if_pos (hyes h)]
      cases part.tree.option? <;> rfl
    · rw [if_neg (hno (t := .byClause) h nofun), List.append_nil]
      cases part.tree.option? <;> rfl
    · rw [if_neg (hno (t := .subsearch) h nofun), List.append_nil]
      cases part.tree.option? <;> rfl
  · next h => exact .other (hno h nofun) (hno h nofun) (hno h nofun) ⟨_, _, addValue_eq _ _⟩
  · next h => exact .other (hno h nofun) (hno h nofun) (hno h nofun) ⟨_, _, addAliased_eq _ _⟩
  · next h =>
    constructor
    · rw [if_neg (hno (t := .optionArg) h nofun)]
    · rw [if_pos (hyes h)]
    · rw [if_neg (hno (t := .subsearch) h nofun), List.append_nil]
  · next h => exact .other (hno h nofun) (hno h nofun) (hno h nofun) ⟨_, _, rfl⟩
  · next h =>
    constructor
    · rw [if_neg (hno (t := .optionArg) h nofun)]
    · rw [if_neg (hno (t := .byClause) h nofun), List.append_nil]
    · rw [if_pos (hyes h)]
  · next hoption _ _ hby _ hsub =>
    exact .other (fun h => hoption (eq_of_beq h)) (fun h => hby (eq_of_beq h))
      (fun h => hsub (eq_of_beq h)) ⟨_, _, rfl⟩

/-- A list to which the arguments add one after another. -/
theorem list_ofParts {α : Type} {list : Arguments → List α} {added : Part → List α}
    (hempty : list empty = [])
    (hadd : ∀ (p : Progress) part, list (p.add part).arguments = list p.arguments ++ added part)
    (parts : List Part) : list (ofParts parts) = parts.flatMap added := by
  have hfold (p : Progress) :
      list (parts.foldl Progress.add p).arguments = list p.arguments ++ parts.flatMap added := by
    induction parts generalizing p with
    | nil => exact (List.append_nil _).symm
    | cons part parts ih =>
      rw [List.foldl_cons, ih, hadd, List.flatMap_cons, List.append_assoc]
  rw [ofParts, hfold, hempty, List.nil_append]

/-- The arguments keep the queries between brackets in order. -/
theorem queries_ofParts (parts : List Part) : (ofParts parts).queries = Meaning.queries parts := by
  rw [list_ofParts rfl (fun p part => (p.grows part).queries), Meaning.queries, Meaning.partsOf,
    List.filterMap_filter, List.filterMap_eq_flatMap_toList]
  refine List.flatMap_congr fun part _ => ?_
  split <;> rfl

end Arguments

/-! ## Commands with free arguments -/

namespace Meaning

/-- Whether a command keeps no queries does not depend on its arguments. -/
theorem isSome_simple? (word : CommandWord) (a : Arguments) :
    (simple? word a).isSome = (simple? word .empty).isSome := by
  cases word <;> rfl

/-- A command around nested queries keeps as many as it has a place for. -/
theorem subqueries_nested? {word : CommandWord} {a : Arguments} {c : Command}
    (h : nested? word a = some c) : c.subqueries = word.room.elim a.queries a.queries.take := by
  cases word with
  | join | append | appendcols | appendpipe | map =>
    obtain rfl := Option.some.inj h
    exact List.take_one.symm
  | union | multisearch =>
    obtain rfl := Option.some.inj h
    rfl
  | _ => cases h

/-- A command with free arguments keeps as many queries as it has a place for. -/
theorem subqueries_freeCommand (node : Placed) (parts : List Part) :
    (freeCommand node parts).subqueries =
      (node.commandWord?.bind CommandWord.room).elim (queries parts) (queries parts).take := by
  rw [← Arguments.queries_ofParts, freeCommand]
  generalize Arguments.ofParts parts = a
  cases node.commandWord? with
  | none => rfl
  | some word =>
    dsimp only [Option.bind_some]
    cases hsimple : simple? word a with
    | some c =>
      have hroom : word.room = some 0 := by
        unfold CommandWord.room
        rw [if_pos (by rw [← isSome_simple? word a, hsimple]; rfl)]
      rw [hroom]
      rfl
    | none =>
      cases hnested : nested? word a with
      | some c => exact subqueries_nested? hnested
      | none => cases word <;> first | rfl | (cases hnested; done) | cases hsimple

end Meaning

/-! ## Nodes -/

namespace Placed

variable {span : Span} {core? : Option Span} {shape : Shape} {ps : List Placed}

/-- Where nodes of a shape have a place only among those that hold no queries, the others hold
none. -/
theorem nests_of_other {shape : Shape} {member : Shape → Bool}
    (h : Only member (content ps).parts)
    (hmember : ∀ s, member s = true → s = shape ∨ s.isQuiet = true) :
    ∀ p ∈ ps, p.isNode shape = false → p.nests = [] := by
  intro p hp hno
  refine nests_of_isQuiet ?_
  cases hs : p.shape? with
  | none => rfl
  | some s =>
    refine (hmember s (h s (mem_parts hp hs))).resolve_left ?_
    rintro rfl
    rw [isNode, hs, beq_self_eq_true] at hno
    cases hno

/-- Where queries between brackets have a place only among plain parts. -/
theorem nests_of_isFree (h : Only isFree (content ps).parts) :
    ∀ p ∈ ps, p.isNode .subsearch = false → p.nests = [] :=
  nests_of_other h fun _ hs => (Bool.or_eq_true_iff.mp hs).imp eq_of_beq isQuiet_of_isPlainPart

theorem nests_of_isNode {p : Placed} (h : p.isNode shape = true) (hshape : shape ≠ .subsearch) :
    p.nests = p.meaning.subqueries := by
  refine if_neg fun hsub => hshape ?_
  exact Option.some.inj ((eq_of_beq h).symm.trans (eq_of_beq hsub))

/-- The only part that is a node nests what there is. -/
theorem flatMap_nests_of_one (h : One (· == shape) (content ps).parts) :
    ps.flatMap nests = (ps.find? (·.isNode shape)).elim [] nests :=
  flatMap_nests_of_countP h.countP_le
    (nests_of_other h.only fun _ hs => .inl (eq_of_beq hs))

/-- A node that stands for what its only part stands for. -/
theorem subqueries_part? (h : One (· == shape) (content ps).parts) (hshape : shape ≠ .subsearch) :
    ((Meaning.part? shape (partsOfAll ps)).elim Meaning.nothing (·.meaning)).subqueries =
      ps.flatMap nests := by
  rw [flatMap_nests_of_one h, Meaning.part?_eq_map]
  cases hfound : ps.find? (·.isNode shape) with
  | none => rfl
  | some p => exact (nests_of_isNode (List.find?_some hfound) hshape).symm

/-- What is read off the first part of a shape. -/
theorem elim_part? {α : Type} {read : Part → Option α} {f : α → List Pipeline}
    (hread : ∀ p : Placed, p.isNode shape = true → (read ⟨p, p.meaning⟩).elim [] f = p.nests) :
    ((Meaning.part? shape (partsOfAll ps)).bind read).elim [] f =
      (ps.find? (·.isNode shape)).elim [] nests := by
  rw [Meaning.part?_eq_map]
  cases hfound : ps.find? (·.isNode shape) with
  | none => rfl
  | some p => exact hread p (List.find?_some hfound)

/-- What a negated term nests, which is the only part. -/
theorem subqueries_searchNot (node : Placed) (h : One isTerm (content ps).parts) :
    ((Meaning.term? node (partsOfAll ps) .searchNot).elim Meaning.nothing Meaning.term).subqueries =
      ps.flatMap nests := by
  rw [← subqueries_terms h.only, Meaning.terms, Meaning.term?, ← List.head?_filter]
  have hlength : ((partsOfAll ps).filter fun p => p.tree.shape?.any isTerm).length ≤ 1 := by
    rw [partsOfAll_eq_map, List.filter_map, List.length_map]
    exact (countP_parts isTerm).symm.trans_le h.countP_le
  generalize (partsOfAll ps).filter _ = parts at hlength
  match parts with
  | [] => rfl
  | [part] =>
    change ((part.term?.bind fun t => some (Term.not t node.core)).elim Meaning.nothing
      Meaning.term).subqueries = _
    rw [List.filterMap_cons]
    cases part.term? with
    | none => rfl
    | some t => exact (List.append_nil _).symm
  | _ :: _ :: _ => exact absurd hlength (by simp)

theorem nests_of_subsearch {p : Placed} (h : p.isNode .subsearch = true) :
    p.nests = [p.pipeline] := if_pos h

/-- The queries between brackets among the parts. -/
theorem queries_partsOfAll (ps : List Placed) : Meaning.queries (partsOfAll ps) =
    (ps.filter (·.isNode .subsearch)).map pipeline := by
  have hread : ∀ p ∈ ps.filter (·.isNode .subsearch),
      (Part.mk p p.meaning).pipeline? = some p.pipeline :=
    fun p hp => pipeline?_of_subsearch (List.mem_filter.mp hp).2
  rw [Meaning.queries, Meaning.partsOf, partsOfAll_eq_map, List.filter_map, List.filterMap_map]
  exact (List.filterMap_congr hread).trans (congrFun List.filterMap_eq_map _)

/-- Nodes with queries between brackets nest as many of them as there is a place for. -/
theorem flatMap_heeded_subsearch {left : Option Nat} (h : Only isFree (content ps).parts) :
    ((⟨.subsearch, left⟩ : Room).heeded ps).flatMap nests =
      left.elim (Meaning.queries (partsOfAll ps)) (Meaning.queries (partsOfAll ps)).take := by
  have hmap (ps' : List Placed) (h' : ∀ p ∈ ps', p.isNode .subsearch = true) :
      ps'.flatMap nests = ps'.map pipeline := by
    rw [List.flatMap_congr fun p hp => nests_of_subsearch (h' p hp), List.map_eq_flatMap]
  rw [Room.flatMap_heeded (nests_of_isFree h), queries_partsOfAll]
  cases left with
  | none => exact hmap _ fun p hp => (List.mem_filter.mp hp).2
  | some n =>
    refine (hmap _ fun p hp => ?_).trans List.map_take
    exact (List.mem_filter.mp (List.mem_of_mem_take hp)).2

/-- The search of the only clause. -/
theorem elim_condition? (parts : List Placed) :
    (Meaning.condition? (partsOfAll parts)).elim [] (·.subqueries) =
      (parts.find? (·.isNode .whereClause)).elim [] nests :=
  elim_part? fun _ hp => nests_search (.inr hp)

/-- What is nested where the default nests nothing. -/
theorem getD_eq_elim {α : Type} {f : α → List Pipeline} {a : α} (ha : f a = []) (o : Option α) :
    f (o.getD a) = o.elim [] f := by
  cases o with
  | none => exact ha
  | some => rfl

/-- What a node nests directly is what those parts nest for which it has a place. -/
theorem Formed.subqueries_eq (h : (node span core? shape ps).Formed) :
    (node span core? shape ps).meaning.subqueries =
      ((node span core? shape ps).room.heeded ps).flatMap nests := by
  have hall : ((⟨.subsearch, none⟩ : Room).heeded ps).flatMap nests = ps.flatMap nests := by
    rw [Room.heeded_of_none]
  have hparts : shape.PartsFit (content ps).parts := h.parts
  cases hquiet : shape.isQuiet with
  | true =>
    -- what can nest nothing has no parts that could
    have hnone : ps.flatMap nests = [] :=
      List.flatMap_eq_nil_iff.mpr (nests_of_only (PartsFit.quiet hquiet hparts))
    rw [meaning, Meaning.subqueries_ofNode hquiet]
    cases shape <;> first | exact (hall.trans hnone).symm | cases hquiet
  | false =>
    cases shape with
    | error => exact hparts.elim
    | root | whereClause => exact (subqueries_part? hparts (by decide)).trans hall.symm
    | subsearch =>
      refine (getD_eq_elim (f := Pipeline.subqueries) rfl _).trans ?_
      refine (elim_part? fun p hp => ?_).trans
        ((flatMap_nests_of_one hparts).symm.trans hall.symm)
      obtain ⟨span, core?, children, rfl⟩ := eq_node_of_isNode hp
      rfl
    | pipeline =>
      exact (flatMap_filterMap_parts fun p hp => nests_stage (shape_of_only hparts hp)).trans
        hall.symm
    | searchExpr | searchOr | searchGroup => exact (subqueries_terms hparts).trans hall.symm
    | searchNot => exact (subqueries_searchNot _ hparts).trans hall.symm
    | searchCommand =>
      refine (getD_eq_elim (f := Search.subqueries) rfl _).trans ?_
      exact (elim_part? fun p hp => nests_search (.inl hp)).trans
        ((flatMap_nests_of_one hparts).symm.trans hall.symm)
    | tstatsCommand =>
      have hothers : ∀ p ∈ ps, p.isNode .whereClause = false → p.nests = [] :=
        nests_of_other hparts fun s hs =>
          (Bool.or_eq_true_iff.mp hs).imp eq_of_beq isQuiet_of_isAggregating
      have hfirst : ((⟨.whereClause, some 1⟩ : Room).heeded ps).flatMap nests =
          ((ps.filter (·.isNode .whereClause)).take 1).flatMap nests := Room.flatMap_heeded hothers
      exact (elim_condition? ps).trans (flatMap_take_one.symm.trans hfirst.symm)
    | inputlookupCommand =>
      have hothers : ∀ p ∈ ps, p.isNode .whereClause = false → p.nests = [] :=
        nests_of_other hparts.1 fun s hs =>
          (Bool.or_eq_true_iff.mp hs).imp eq_of_beq isQuiet_of_isPlainPart
      exact (elim_condition? ps).trans
        ((flatMap_nests_of_countP hparts.2 hothers).symm.trans hall.symm)
    | foreachCommand =>
      have hothers := nests_of_isFree hparts.1
      have htoList (o : Option Pipeline) : o.toList = o.elim [] ([·]) := by cases o <;> rfl
      refine (htoList _).trans ((elim_part? fun p hp => ?_).trans
        ((flatMap_nests_of_countP hparts.2 hothers).symm.trans hall.symm))
      rw [pipeline?_of_subsearch hp, nests_of_subsearch hp]
      rfl
    | keywordCommand =>
      exact (Meaning.subqueries_freeCommand _ _).trans
        (flatMap_heeded_subsearch (hparts.mono fun _ => isFree_of_isArgument)).symm
    | genericCommand =>
      have hfree : ((⟨.subsearch, none⟩ : Room).heeded ps).flatMap nests =
          Meaning.queries (partsOfAll ps) :=
        flatMap_heeded_subsearch (hparts.mono fun _ => isFree_of_isArgument)
      exact (Arguments.queries_ofParts _).trans hfree.symm
    | _ => cases hquiet

end Placed

/-! ## Queries between brackets -/

namespace Placed

/-- All queries nested in what a node stands for, however deep, are those that are kept. -/
theorem Formed.nested_eq {p : Placed} (h : p.Formed) :
    (p.nests.flatMap fun q => q :: q.nested) = p.keptQueries.map pipeline := by
  refine h.rec_nodes (motive := fun p =>
    (p.nests.flatMap fun q => q :: q.nested) = p.keptQueries.map pipeline) (fun _ _ _ => rfl)
    fun span core? shape children h ih => ?_
  have hbelow : ((node span core? shape children).meaning.subqueries.flatMap fun q =>
      q :: q.nested) = (keptAmong (node span core? shape children).room children).map pipeline := by
    rw [h.subqueries_eq, List.flatMap_assoc, keptAmong_eq, List.map_flatMap]
    exact List.flatMap_congr fun q hq => ih q ((Room.heeded_sublist _ _).subset hq)
  by_cases hshape : shape = .subsearch
  · subst hshape
    rw [nests, if_pos (by rfl), keptQueries, if_pos rfl, List.map_cons, ← hbelow,
      List.flatMap_singleton, Pipeline.nested_eq]
    rfl
  · have hself : (node span core? shape children).isNode shape = true := beq_self_eq_true _
    rw [nests_of_isNode hself hshape, keptQueries, if_neg hshape, ← hbelow]

/-- The root of a tree stands for a query. -/
theorem nests_root {p : Placed} (h : p.isNode .root = true) : p.nests = p.pipeline.subqueries := by
  rw [nests_of_isNode h (by decide)]
  obtain ⟨span, core?, children, rfl⟩ := eq_node_of_isNode h
  have hmeaning : (node span core? .root children).meaning =
      (Meaning.part? .pipeline (partsOfAll children)).elim .nothing (·.meaning) := rfl
  rw [pipeline, hmeaning, Meaning.part?_eq_map]
  cases hfound : children.find? (·.isNode .pipeline) with
  | none => rfl
  | some p =>
    obtain ⟨span, core?, children, rfl⟩ := eq_node_of_isNode (List.find?_some hfound)
    rfl

end Placed

theorem isNode_root_parseQuery (text : String) (limit : Nat) :
    (parseQuery text limit).tree.isNode .root = true := by
  obtain ⟨-, -, -, -, children, htree⟩ := finalState_healthy text limit
  change ((parseTree text limit).tree.place 0).isNode .root = true
  rw [htree]
  rfl

/-- **Where nothing is wrong, the queries nested in a query are those between brackets in the tree
for which there is a place**, in order, each of them once: a command whose arguments follow no rule
has a place for one of them, for none or for all by its word, `tstats` for those in the first of its
conditions, and every other node for all. If no node has more than it has a place for, all queries
between brackets are kept. -/
theorem parseQuery_nested {text : String} {limit : Nat}
    (h : (parseQuery text limit).diagnostics = []) :
    (parseQuery text limit).query.nested =
        (parseQuery text limit).tree.keptQueries.map Placed.pipeline ∧
      (parseQuery text limit).tree.keptQueries.Sublist
        ((parseQuery text limit).tree.nodes.filter (·.isNode .subsearch)) ∧
      ((∀ n ∈ (parseQuery text limit).tree.nodes, n.HasRoom) →
        (parseQuery text limit).tree.keptQueries =
          (parseQuery text limit).tree.nodes.filter (·.isNode .subsearch)) := by
  refine ⟨?_, Placed.keptQueries_sublist _, Placed.keptQueries_eq⟩
  rw [← (parseQuery_formed h).nested_eq, Placed.nests_root (isNode_root_parseQuery text limit),
    ← Pipeline.nested_eq]
  rfl

/-- Queries in queries, side by side, under commands that have a place for one and for all. -/
theorem parseQuery_nested_sample :
    (parseQuery "| append [c | union [d] [e]]" 128).diagnostics = [] ∧
      (parseQuery "| append [c | union [d] [e]]" 128).query.nested =
        (parseQuery "| append [c | union [d] [e]]" 128).tree.keptQueries.map
          Placed.pipeline := by
  have h : (parseQuery "| append [c | union [d] [e]]" 128).diagnostics = [] := by
    decide +kernel
  exact ⟨h, (parseQuery_nested h).1⟩

/-- The second query under a command that has a place for one is in the tree, and not in the
query. -/
theorem parseQuery_nested_overlooked :
    (parseQuery "| join id [search a] [search b]" 128).diagnostics = [] ∧
      (parseQuery "| join id [search a] [search b]" 128).query.nested.length = 1 ∧
      ((parseQuery "| join id [search a] [search b]" 128).tree.nodes.filter
        (·.isNode .subsearch)).length = 2 := by
  obtain ⟨hclean, ⟨hone, hflat⟩, htwo⟩ :
      (parseQuery "| join id [search a] [search b]" 128).diagnostics = [] ∧
        ((parseQuery "| join id [search a] [search b]" 128).query.subqueries.length = 1 ∧
          ∀ q ∈ (parseQuery "| join id [search a] [search b]" 128).query.subqueries,
            q.subqueries.length = 0) ∧
        ((parseQuery "| join id [search a] [search b]" 128).tree.nodes.filter
          (·.isNode .subsearch)).length = 2 := by
    decide +kernel
  rw [Pipeline.nested_of_flat fun q hq => List.eq_nil_of_length_eq_zero (hflat q hq)]
  exact ⟨hclean, hone, htwo⟩

end SplQuery
