import SplQuery.Proofs.Call.Form
import SplQuery.Proofs.Reading.Meaning
import SplQuery.Query.Parse

/-!
# The field and the other name of a call

The field of a call stands between its parentheses and its other name after an `as`, and either may
be missing. Both are names of fields, children of the same node. The field is taken to be the first
of them, and the other name the second one if there is an `as`. So when nothing stands between the
parentheses the other name is taken for the field, and the call is taken to have no other name.

* `Placed.fieldInside?`, `Placed.nameAfterAs?` — the two, by where they stand.
* `WrittenCall` — a call in a tree, by its parts.
* `parseTree_called` — what every call of a text is taken for.
-/

namespace SplQuery

namespace Placed

/-- The kind of a leaf. -/
def leafKind? : Placed → Option Kind
  | .leaf _ kind _ => some kind
  | .node _ _ _ _ => none

/-- Trees from the first leaf of a kind on. -/
def fromLeaf (kind : Kind) (ps : List Placed) : List Placed :=
  ps.dropWhile (·.leafKind? != some kind)

/-- What stands in a call from its parenthesis on, without trivia. -/
def fromParen (call : Placed) : List Placed := fromLeaf .lparen (solid call.children)

/-- Whether the stretch between the parentheses of a call ends here. -/
def endsInside (p : Placed) : Bool :=
  p.leafKind? == some .rparen || p.leafKind? == some (.clause .as)

/-- The name of a field that stands between the parentheses of a call. -/
def fieldInside? (call : Placed) : Option Placed :=
  (call.fromParen.takeWhile (!·.endsInside)).find? (·.isNode .fieldItem)

/-- The name that stands after the `as` of a call. -/
def nameAfterAs? (call : Placed) : Option Placed :=
  (fromLeaf (.clause .as) call.fromParen).find? (·.isNode .fieldItem)

/-- What commands find of a call if it is one of this field with this other name. A call without a
field is left out. -/
structure ReadAs (call : Placed) (name : String) (field? other? : Option Placed) : Prop where
  conversion : Meaning.conversion? call =
    field?.map fun f => ⟨name, f.value, other?.map (·.value), call.core⟩
  trend : Meaning.trend? call = field?.map fun f => ⟨name, f.value, other?.map (·.value)⟩
  key : ∀ key : Placed, key.node? .fieldCall = some call → Meaning.sortKey? key =
    field?.map fun f => ⟨f.value, some name, Meaning.isDescending key, key.core⟩

variable {p : Placed}

theorem shape?_of_leafKind? {k : Kind} (h : p.leafKind? = some k) : p.shape? = none := by
  cases p with
  | leaf => rfl
  | node => cases h

theorem not_isNode_of_leafKind? {k : Kind} (h : p.leafKind? = some k) (shape : Shape) :
    p.isNode shape = false := by
  rw [isNode, shape?_of_leafKind? h]
  rfl

theorem leafKind?_of_isNode {shape : Shape} (h : p.isNode shape = true) : p.leafKind? = none := by
  obtain ⟨span, core?, children, rfl⟩ := eq_node_of_isNode h
  rfl

theorem leafKind?_of_bare {k : Kind} {w : String} (h : p.bare = [.leaf k w]) :
    p.leafKind? = some k := by
  obtain ⟨⟨span, rfl⟩, -⟩ := leaf_of_bare h
  rfl

theorem fromLeaf_append {k : Kind} {ps : List Placed} (h : ∀ p ∈ ps, p.leafKind? ≠ some k)
    (qs : List Placed) : fromLeaf k (ps ++ qs) = fromLeaf k qs :=
  List.dropWhile_append_of_pos fun p hp => bne_iff_ne.mpr (h p hp)

theorem fromLeaf_leaf {k : Kind} (h : p.leafKind? = some k) (ps : List Placed) :
    fromLeaf k (p :: ps) = p :: ps :=
  List.dropWhile_cons_of_neg fun hne => bne_iff_ne.mp hne h

/-- What is read off trees one after another is read off the first of them and off the others. -/
theorem split_of_bare {qs : List Placed} {ts us : List Tree}
    (h : List.Forall₂ (fun q t => q.bare = [t]) qs (ts ++ us)) :
    ∃ rs ss, qs = rs ++ ss ∧ List.Forall₂ (fun q t => q.bare = [t]) rs ts ∧
      List.Forall₂ (fun q t => q.bare = [t]) ss us :=
  ⟨_, _, (List.take_append_drop ts.length qs).symm, List.forall₂_take_append _ _ _ h,
    List.forall₂_drop_append _ _ _ h⟩

/-- What may be missing, from its bare form. -/
theorem optional_of_bare {α : Type} {tree : α → Tree} {qs : List Placed} {a? : Option α}
    (h : List.Forall₂ (fun q t => q.bare = [t]) qs (a?.toList.map tree)) :
    ∃ q? : Option Placed, qs = q?.toList ∧ ∀ q ∈ q?, ∃ a ∈ a?, q.bare = [tree a] := by
  cases a? with
  | none =>
    obtain _ | _ := h
    exact ⟨none, rfl, nofun⟩
  | some a =>
    obtain _ | ⟨hq, _ | _⟩ := h
    refine ⟨some _, rfl, fun q hmem => ?_⟩
    obtain rfl := Option.mem_some.mp hmem
    exact ⟨a, rfl, hq⟩

end Placed

open Placed

/-- A call in a tree, by its parts: `name(field) as other`, where all but the name and the first
parenthesis may be missing. -/
structure WrittenCall (call : Placed) where
  span : Span
  kind : Kind
  word : String
  opening : Placed
  field? : Option Placed
  closing? : Option Placed
  as? : Option Placed
  other? : Option Placed
  parts : solid call.children = .leaf span kind word :: opening ::
    (field?.toList ++ (closing?.toList ++ (as?.toList ++ other?.toList)))
  isWord : kind.isWord = true
  isSolid : kind.isTrivia = false
  isOpening : opening.leafKind? = some .lparen
  isClosing : ∀ p ∈ closing?, p.leafKind? = some .rparen
  isAs : ∀ p ∈ as?, p.leafKind? = some (.clause .as)
  isField : ∀ p ∈ field?, p.isNode .fieldItem = true
  isOther : ∀ p ∈ other?, p.isNode .fieldItem = true
  /-- there is no other name without an `as` -/
  noOther : as? = none → other? = none

namespace WrittenCall

variable {call : Placed}

/-- Another name and the `as` in front of it. -/
theorem exists_others {qs : List Placed} {other? : Option (String × Option (List Tree))}
    (h : List.Forall₂ (fun q t => q.bare = [t]) qs (CallParts.others other?)) :
    ∃ as? name? : Option Placed, qs = as?.toList ++ name?.toList ∧
      (∀ p ∈ as?, p.leafKind? = some (.clause .as)) ∧
      (∀ p ∈ name?, p.isNode .fieldItem = true) ∧ (as? = none → name? = none) := by
  cases other? with
  | none =>
    obtain _ | _ := h
    exact ⟨none, none, rfl, nofun, nofun, fun _ => rfl⟩
  | some other =>
    obtain _ | @⟨as, _, qs, _, has, hqs⟩ := h
    obtain ⟨name?, rfl, hname⟩ := optional_of_bare hqs
    refine ⟨some as, name?, rfl, fun p hp => ?_, fun p hp => ?_, nofun⟩
    · obtain rfl := Option.mem_some.mp hp
      exact leafKind?_of_bare has
    · obtain ⟨ts, -, hbare⟩ := hname p hp
      exact isNode_of_bare hbare

/-- What holds the parts of a call is a call. -/
theorem of_bareAll {c : CallParts} (h : bareAll call.children = c.trees) :
    Nonempty (WrittenCall call) := by
  have hparts := solid_of_bareAll h
  generalize hqs : solid call.children = qs at hparts
  obtain _ | @⟨name, _, _, _, hname, _ | @⟨opening, _, qs, _, hopening, hrest⟩⟩ := hparts
  obtain ⟨⟨span, rfl⟩, hsolid⟩ := leaf_of_bare hname
  -- what stands behind the parenthesis falls into the field, the closer and the other name
  obtain ⟨_, _, rfl, hinside, hrest⟩ := split_of_bare hrest
  obtain ⟨_, _, rfl, hcloser, hothers⟩ := split_of_bare hrest
  obtain ⟨field?, rfl, hfield⟩ := optional_of_bare hinside
  obtain ⟨closing?, rfl, hclosing⟩ := optional_of_bare hcloser
  obtain ⟨as?, other?, rfl, has, hother, hnone⟩ := exists_others hothers
  refine ⟨{ span, kind := c.kind, word := c.name, opening, field?, closing?, as?, other?,
            parts := hqs, isWord := c.isWord, isSolid := hsolid,
            isOpening := leafKind?_of_bare hopening, isClosing := fun p hp => ?_, isAs := has,
            isField := fun p hp => ?_, isOther := hother, noOther := hnone }⟩
  · obtain ⟨w, -, hbare⟩ := hclosing p hp
    exact leafKind?_of_bare hbare
  · obtain ⟨ts, -, hbare⟩ := hfield p hp
    exact isNode_of_bare hbare

/-! ## What is read off it -/

variable (w : WrittenCall call)

/-- The field and the other name are the names of fields among the children. -/
theorem items : call.nodesOf .fieldItem = w.field?.toList ++ w.other?.toList := by
  have hleaves {p? : Option Placed} {k : Kind} (h : ∀ p ∈ p?, p.leafKind? = some k) :
      p?.toList.filter (·.isNode .fieldItem) = [] :=
    List.filter_eq_nil_iff.mpr fun p hp =>
      Bool.eq_false_iff.mp (not_isNode_of_leafKind? (h p (Option.mem_toList.mp hp)) _)
  have hitems {p? : Option Placed} (h : ∀ p ∈ p?, p.isNode .fieldItem = true) :
      p?.toList.filter (·.isNode .fieldItem) = p?.toList :=
    List.filter_eq_self.mpr fun p hp => h p (Option.mem_toList.mp hp)
  have hopening : ¬w.opening.isNode .fieldItem = true :=
    Bool.eq_false_iff.mp (not_isNode_of_leafKind? w.isOpening _)
  have heq : call.nodesOf .fieldItem = (solid call.children).filter (·.isNode .fieldItem) := by
    cases call with
    | leaf => rfl
    | node => exact nodesOf_eq _
  rw [heq, w.parts, List.filter_cons_of_neg Bool.false_ne_true, List.filter_cons_of_neg hopening,
    List.filter_append, List.filter_append, List.filter_append, hitems w.isField,
    hleaves w.isClosing, hleaves w.isAs, hitems w.isOther, List.nil_append, List.nil_append]

/-- The name is the first word. -/
theorem calledName? : call.calledName? = some w.word.toLower := by
  have heq : call.lexemes = (solid call.children).filterMap lexeme? := by
    cases call with
    | leaf => rfl
    | node => exact lexemes_eq
  have hname : (Placed.leaf w.span w.kind w.word).lexeme? = some ⟨w.kind, w.span.start, w.word⟩ :=
    if_neg (Bool.eq_false_iff.mp w.isSolid)
  rw [Placed.calledName?, firstLexeme?, heq, w.parts, List.filterMap_cons_some hname]
  rfl

/-- From the parenthesis on there is all but the name. -/
theorem fromParen : call.fromParen =
    w.opening :: (w.field?.toList ++ (w.closing?.toList ++ (w.as?.toList ++ w.other?.toList))) := by
  -- the name may be any word, `as` too, but it is no parenthesis
  have hname : ∀ p ∈ [Placed.leaf w.span w.kind w.word], p.leafKind? ≠ some .lparen := by
    intro p hp h
    obtain rfl := List.mem_singleton.mp hp
    have hword := w.isWord
    rw [Option.some.inj h] at hword
    cases hword
  rw [Placed.fromParen, w.parts, ← List.singleton_append, fromLeaf_append hname,
    fromLeaf_leaf w.isOpening]

theorem find?_item {p? : Option Placed} (h : ∀ p ∈ p?, p.isNode .fieldItem = true) :
    p?.toList.find? (·.isNode .fieldItem) = p? := by
  cases p? with
  | none => rfl
  | some p => exact List.find?_cons_of_pos (h p rfl)

theorem endsInside_of_leafKind? {p : Placed} {k : Kind} (h : p.leafKind? = some k)
    (hk : (k == .rparen || k == .clause .as) = true) : p.endsInside = true := by
  rw [endsInside, h]
  exact hk

/-- Nothing that is inside stands behind the field. -/
theorem takeWhile_others :
    (w.closing?.toList ++ (w.as?.toList ++ w.other?.toList)).takeWhile (!·.endsInside) = [] := by
  have hends {p : Placed} {ps : List Placed} (h : p.endsInside = true) :
      (p :: ps).takeWhile (!·.endsInside) = [] :=
    List.takeWhile_cons_of_neg (by rw [h]; exact Bool.false_ne_true)
  cases hclosing : w.closing? with
  | some c => exact hends (endsInside_of_leafKind? (w.isClosing c hclosing) rfl)
  | none =>
    cases has : w.as? with
    | some a => exact hends (endsInside_of_leafKind? (w.isAs a has) rfl)
    | none =>
      rw [w.noOther has]
      rfl

/-- The field stands between the parentheses. -/
theorem fieldInside? : call.fieldInside? = w.field? := by
  have hinside : ∀ p ∈ w.opening :: w.field?.toList, (!p.endsInside) = true := by
    intro p hp
    rcases List.mem_cons.mp hp with rfl | hp
    · rw [endsInside, w.isOpening]
      rfl
    · rw [endsInside, leafKind?_of_isNode (w.isField p (Option.mem_toList.mp hp))]
      rfl
  have hno : ¬w.opening.isNode .fieldItem = true :=
    Bool.eq_false_iff.mp (not_isNode_of_leafKind? w.isOpening _)
  rw [Placed.fieldInside?, w.fromParen, ← List.cons_append, List.takeWhile_append_of_pos hinside,
    w.takeWhile_others, List.append_nil, List.find?_cons_of_neg hno, find?_item w.isField]

/-- The other name stands after the `as`. -/
theorem nameAfterAs? : call.nameAfterAs? = w.other? := by
  have hbefore : ∀ p ∈ w.opening :: (w.field?.toList ++ w.closing?.toList),
      p.leafKind? ≠ some (.clause .as) := by
    intro p hp
    rcases List.mem_cons.mp hp with rfl | hp
    · rw [w.isOpening]
      nofun
    rcases List.mem_append.mp hp with hp | hp
    · rw [leafKind?_of_isNode (w.isField p (Option.mem_toList.mp hp))]
      nofun
    · rw [w.isClosing p (Option.mem_toList.mp hp)]
      nofun
  rw [Placed.nameAfterAs?, w.fromParen, ← List.append_assoc, ← List.cons_append,
    fromLeaf_append hbefore]
  cases has : w.as? with
  | none =>
    rw [w.noOther has]
    rfl
  | some a =>
    have hno : ¬a.isNode .fieldItem = true :=
      Bool.eq_false_iff.mp (not_isNode_of_leafKind? (w.isAs a has) _)
    rw [Option.toList_some, List.singleton_append, fromLeaf_leaf (w.isAs a has),
      List.find?_cons_of_neg hno, find?_item w.isOther]

/-- The field is taken to be the first name, wherever it stands. -/
theorem calledField? : call.calledField? = (w.field?.or w.other?).map (·.value) := by
  have hfirst : call.node? .fieldItem = (call.nodesOf .fieldItem).head? :=
    List.head?_filter.symm
  rw [Placed.calledField?, hfirst, w.items]
  cases w.field? <;> cases w.other? <;> rfl

/-- There is an `as` in front of the other name. -/
theorem lexemeOf?_as (h : w.other?.isSome = true) :
    (call.lexemeOf? (.clause .as)).isSome = true := by
  cases has : w.as? with
  | none =>
    rw [w.noOther has] at h
    cases h
  | some a =>
    have hmem : a ∈ solid call.children := by
      rw [w.parts, has]
      simp
    have hkind := w.isAs a has
    cases a with
    | node => cases hkind
    | leaf span kind word =>
      obtain rfl := Option.some.inj hkind
      have hlexeme : ⟨.clause .as, span.start, word⟩ ∈ call.lexemes :=
        List.mem_filterMap.mpr ⟨_, List.mem_of_mem_filter hmem, rfl⟩
      exact List.find?_isSome.mpr ⟨_, hlexeme, rfl⟩

/-- The other name is taken to be the second one. -/
theorem callAlias? : call.callAlias? = w.field?.bind fun _ => w.other?.map (·.value) := by
  have hsecond : (call.nodesOf .fieldItem)[1]? = w.field?.bind fun _ => w.other? := by
    rw [w.items]
    cases w.field? <;> cases w.other? <;> rfl
  rw [Placed.callAlias?, hsecond]
  cases hother : w.other? with
  -- the name of the function may be the word `as`, which is then no sign of another name
  | none => cases w.field? <;> cases call.lexemeOf? (.clause .as) <;> rfl
  | some other =>
    obtain ⟨as, has⟩ := Option.isSome_iff_exists.mp (w.lexemeOf?_as (by rw [hother]; rfl))
    rw [has]
    cases w.field? <;> rfl

/-- A call is taken for what its first name and its second one are. -/
theorem readAs : call.ReadAs w.word.toLower (w.field?.or w.other?)
    (w.field?.bind fun _ => w.other?) := by
  have hsecond : call.callAlias? = (w.field?.bind fun _ => w.other?).map (·.value) := by
    rw [w.callAlias?, Option.map_bind]
    rfl
  refine ⟨?_, ?_, fun key hkey => ?_⟩
  · rw [Meaning.conversion?, w.calledName?, w.calledField?, hsecond]
    cases w.field?.or w.other? <;> rfl
  · rw [Meaning.trend?, w.calledName?, w.calledField?, hsecond]
    cases w.field?.or w.other? <;> rfl
  · rw [Meaning.sortKey?, hkey, Option.elim_some, w.calledField?, Option.bind_some, w.calledName?]
    cases w.field?.or w.other? <;> rfl

end WrittenCall

/-- Every call in the tree of a text is one by its parts. -/
theorem exists_writtenCall {text : String} {limit : Nat} {call : Placed}
    (hmem : call ∈ ((parseTree text limit).tree.place 0).nodes)
    (hcall : call.isNode .fieldCall = true) : Nonempty (WrittenCall call) := by
  obtain ⟨before, shape, children, _, -, hplaced, hholds⟩ :=
    (parseTree_followed State.made_holdsCall text limit).of_mem_nodes hmem
  generalize 0 + Text.width (before.flatMap (·.2.toList)) = start at hplaced
  subst hplaced
  obtain rfl := Option.some.inj (eq_of_beq hcall)
  obtain ⟨c, hc⟩ := hholds rfl
  have hbare := bare_place (.node .fieldCall children) start
  rw [Tree.bare, hc] at hbare
  exact WrittenCall.of_bareAll (Tree.node.inj (List.cons.inj hbare).1).2

/-- **What a call is taken for.** A call in a text, whatever is wrong with it, is taken for one of
the field between its parentheses with the other name after its `as`, if there is a field or no
other name. If there is no field the other name is taken for it. -/
theorem parseTree_called (text : String) (limit : Nat) :
    ∀ call ∈ ((parseTree text limit).tree.place 0).nodes, call.isNode .fieldCall = true →
      ∃ name, call.calledName? = some name ∧
        (call.fieldInside?.isSome = true ∨ call.nameAfterAs? = none →
          call.ReadAs name call.fieldInside? call.nameAfterAs?) ∧
        (call.fieldInside? = none → call.ReadAs name call.nameAfterAs? none) := by
  intro call hmem hcall
  obtain ⟨w⟩ := exists_writtenCall hmem hcall
  have hread := w.readAs
  rw [← w.fieldInside?, ← w.nameAfterAs?] at hread
  refine ⟨w.word.toLower, w.calledName?, fun hsound => ?_, fun hempty => ?_⟩
  · -- with a field it is the first name, and without another name there is no second one
    rcases hsound with hfield | hother
    · obtain ⟨f, hf⟩ := Option.isSome_iff_exists.mp hfield
      rw [hf] at hread ⊢
      exact hread
    · rw [hother] at hread ⊢
      cases hf : call.fieldInside? <;> rw [hf] at hread <;> exact hread
  · rw [hempty] at hread
    exact hread

/-- A call with a field and another name, and one with another name only. -/
theorem parseTree_called_sample :
    (∃ call ∈ ((parseTree "| convert num(f) AS a" 128).tree.place 0).nodes,
      call.isNode .fieldCall = true ∧ call.fieldInside?.isSome = true ∧
        ∃ name, call.calledName? = some name ∧
          call.ReadAs name call.fieldInside? call.nameAfterAs?) ∧
      ∃ call ∈ ((parseTree "| trendline sma5() AS a" 128).tree.place 0).nodes,
        call.isNode .fieldCall = true ∧ call.fieldInside? = none ∧
          ∃ name, call.calledName? = some name ∧ call.ReadAs name call.nameAfterAs? none := by
  have hfull : (((parseTree "| convert num(f) AS a" 128).tree.place 0).nodes.any fun call =>
      call.isNode .fieldCall && call.fieldInside?.isSome) = true := by decide +kernel
  have hempty : (((parseTree "| trendline sma5() AS a" 128).tree.place 0).nodes.any fun call =>
      call.isNode .fieldCall && call.fieldInside?.isNone) = true := by decide +kernel
  obtain ⟨call, hmem, hcall⟩ := List.any_eq_true.mp hfull
  obtain ⟨hshape, hfield⟩ := Bool.and_eq_true_iff.mp hcall
  obtain ⟨name, hname, hread, -⟩ := parseTree_called _ _ call hmem hshape
  refine ⟨⟨call, hmem, hshape, hfield, name, hname, hread (.inl hfield)⟩, ?_⟩
  obtain ⟨call, hmem, hcall⟩ := List.any_eq_true.mp hempty
  obtain ⟨hshape, hfield⟩ := Bool.and_eq_true_iff.mp hcall
  have hnone := Option.isNone_iff_eq_none.mp hfield
  obtain ⟨name, hname, -, hread⟩ := parseTree_called _ _ call hmem hshape
  exact ⟨call, hmem, hshape, hnone, name, hname, hread hnone⟩

/-- Without a field the other name is taken for it, though nothing is wrong. -/
theorem parseTree_called_swapped :
    (parseQuery "| convert auto() AS a" 128).success = true ∧
      ((parseQuery "| convert auto() AS a" 128).tree.nodes.any fun call =>
        call.isNode .fieldCall && call.fieldInside?.isNone &&
          call.nameAfterAs?.map (·.value) == some "a") = true ∧
      ((parseQuery "| convert auto() AS a" 128).query.stages.any fun stage =>
        stage matches .command (.simple (.convert none [⟨"auto", "a", none, _⟩])) _) = true := by
  decide +kernel

end SplQuery
