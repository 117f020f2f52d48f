import SplQuery.Proofs.Formed.Carries
import SplQuery.Proofs.Query.Glued

/-!
# What options and clauses hold

An option begins with its name and ends with a value, and what is grouped by is one list of names,
whatever else may be wrong with them. So neither an option nor a name to group by is overlooked.

* `Pushes` — a step that puts in nodes of a class only.
* `made_partsHold` — what an option and a clause are made of.
* `Placed.exists_name_value` — the name and the value of an option.
* `Placed.clauseItems_eq` — the names of fields in a clause.
-/

namespace SplQuery

open State

/-- Whatever is wrong, the step puts in lexemes and nodes of a class only. -/
def Pushes (member : Shape → Bool) {α : Type} (p : Parser α) : Prop :=
  ∀ s, ∃ new, (p s).2.built = new ++ s.built ∧ ∀ t ∈ new, t.shape?.all member = true

namespace Pushes

open SplQuery.Parser

variable {member : Shape → Bool} {α β σ : Type} {p : Parser α} {shape : Shape}

/-- Lexemes are in any class. -/
theorem all_leaves {ls : List Lexeme} : ∀ t ∈ ls.map leaf, t.shape?.all member = true :=
  List.forall_mem_map.mpr fun _ _ => rfl

theorem question (h : Question p) : Pushes member p := fun s => ⟨[], h.built s, nofun⟩

theorem pure (a : α) : Pushes member (Pure.pure a) := question (.pure a)

theorem bind {f : α → Parser β} (hp : Pushes member p) (hf : ∀ a, Pushes member (f a)) :
    Pushes member (p >>= f) := by
  intro s
  obtain ⟨new, hnew, hall⟩ := hp s
  obtain ⟨more, hmore, hmoreAll⟩ := hf (p s).1 (p s).2
  refine ⟨more ++ new, ?_, List.forall_mem_append.mpr ⟨hmoreAll, hall⟩⟩
  change (f (p s).1 (p s).2).2.built = _
  rw [hmore, hnew, List.append_assoc]

theorem asking {f : α → Parser β} (h : Question p) (hf : ∀ a, Pushes member (f a)) :
    Pushes member (p >>= f) := bind (question h) hf

theorem ite {c : Prop} [Decidable c] {p q : Parser α} (hp : Pushes member p)
    (hq : Pushes member q) : Pushes member (if c then p else q) := by
  split
  · exact hp
  · exact hq

theorem bump : Pushes member Parser.bump := by
  intro s
  change ∃ new, s.bump.built = _ ∧ _
  cases hrest : s.rest with
  | nil =>
    rw [State.bump, hrest]
    exact ⟨[], rfl, List.forall_mem_nil _⟩
  | cons l ls =>
    rw [bump_of_cons hrest]
    refine ⟨((s.held ++ [l]).map leaf).reverse, ?_,
      fun t ht => all_leaves t (List.mem_reverse.mp ht)⟩
    rw [List.map_append, List.reverse_append]
    rfl

/-- What a node holds does not matter. -/
theorem node (hshape : member shape = true) : Pushes member (Parser.node shape p) := by
  refine fun s => ⟨.node shape (p (opened s)).2.built.reverse :: (s.held.map leaf).reverse, rfl, ?_⟩
  exact List.forall_mem_cons.mpr ⟨hshape, fun t ht => all_leaves t (List.mem_reverse.mp ht)⟩

theorem eat (kind : Kind) : Pushes member (Parser.eat kind) :=
  asking (.isAt kind) fun _ => ite (bump.bind fun _ => pure _) (pure _)

theorem reportWith (kind : DiagnosticKind) (detail : String) :
    Pushes member (Parser.reportWith kind detail) := by
  intro s
  rw [reportWith_eq]
  exact ⟨[], rfl, nofun⟩

theorem expect (kind : Kind) (spelling : String) : Pushes member (Parser.expect kind spelling) :=
  (eat kind).bind fun _ => ite (pure _) ((reportWith _ _).bind fun _ => pure _)

theorem loop {init : σ} {body : σ → Parser (ForInStep σ)} (h : ∀ a, Pushes member (body a)) :
    Pushes member (Parser.loop init body) := by
  have hfrom : ∀ fuel a, Pushes member (loopFrom body fuel a) := by
    intro fuel
    induction fuel with
    | zero => exact fun a s => ⟨[], rfl, nofun⟩
    | succ fuel ih =>
      refine fun a => (h a).bind fun step => ?_
      cases step with
      | done b => exact pure b
      | yield b => exact ih b
  exact fun s => hfrom (s.rest.length + 2) init s

/-- A node holds what is put into it. -/
theorem holds (h : Pushes member p) (shape : Shape) (s : State) : ∃ inside,
    (Parser.node shape p s).2.built = .node shape inside :: ((s.held.map leaf).reverse ++ s.built) ∧
      ∀ t ∈ inside, t.shape?.all member = true := by
  obtain ⟨new, hnew, hall⟩ := h (opened s)
  refine ⟨(p (opened s)).2.built.reverse, rfl, fun t ht => hall t ?_⟩
  have hinside : (p (opened s)).2.built = new := hnew.trans (List.append_nil new)
  exact hinside ▸ List.mem_reverse.mp ht

/-- A list holds what it is a list of. -/
theorem fieldListOf {item : Parser Unit} (h : Pushes member item) (stop : Kind → Bool) (s : State) :
    ∃ inside, (Grammar.fieldListOf item stop s).2.built =
      .node .fieldList inside :: ((s.held.map leaf).reverse ++ s.built) ∧
        ∀ t ∈ inside, t.shape?.all member = true := by
  refine holds (loop fun count => ?_) _ s
  refine asking (.orM .atStageEnd (.orM (.isIn _) .atOption)) fun _ => ite (pure _) ?_
  refine asking .current fun _ => ite (bump.bind fun _ => pure _) ?_
  exact ite (h.bind fun _ => pure _) (pure _)

end Pushes

/-! ## What is made of them -/

namespace Tree

/-- An option holds its name, other lexemes and a value. -/
def HoldsOption (children : List Tree) : Prop :=
  ∃ (name : Lexeme) (between value : List Tree),
    children = State.leaf name :: (between ++ [.node .optionValue value]) ∧
      name.isTrivia = false ∧ ∀ t ∈ between, t.shape? = none

/-- What is grouped by is a list of names of fields behind lexemes. -/
def HoldsNames (children : List Tree) : Prop :=
  ∃ before names : List Tree, children = before ++ [.node .fieldList names] ∧
    (∀ t ∈ before, t.shape? = none) ∧ ∀ t ∈ names, t.shape?.all (· == .fieldItem) = true

/-- An option or a clause holds what it should. -/
def HoldsParts (_ : List (Kind × String)) (shape : Shape) (children : List Tree) : Prop :=
  (shape = .optionArg → HoldsOption children) ∧ (shape = .byClause → HoldsNames children)

end Tree

namespace Grammar

open SplQuery.Parser

variable {s : State} {sight : Sight}

/-- What is in no class of nodes is a lexeme. -/
theorem shape?_eq_none {t : Tree} (h : t.shape?.all (fun _ => false) = true) :
    t.shape? = none := by
  cases hshape : t.shape? with
  | none => rfl
  | some shape =>
    rw [hshape] at h
    cases h

theorem shape?_of_mem_leaves {ls : List Lexeme} {t : Tree} (h : t ∈ ls.map leaf) :
    t.shape? = none := shape?_eq_none (Pushes.all_leaves t h)

theorem holdsOption_of_recipe (hstarts : optionRecipe.starts sight = true)
    (hsight : sight.Holds s) :
    Tree.HoldsOption (optionRecipe.body (opened s)).2.built.reverse := by
  obtain ⟨k, hfirst, -⟩ := (Option.any_eq_true _ _).mp hstarts
  obtain ⟨hready, hnext⟩ := hsight.ready hfirst
  obtain ⟨name, ls, hrest, rfl, hname⟩ := hready.rest_of_next? hnext
  have hopened : (opened s).rest = name :: ls := hrest
  have hexpect : Pushes (fun _ => false) (expect .equals "=") := .expect _ _
  obtain ⟨new, hnew, hleaves⟩ := hexpect (opened s).bump
  generalize ht : (expect .equals "=" (opened s).bump).2 = t at hnew
  -- whatever the value is made of, it is put in last
  have hvalue : ∃ value, (optionRecipe.body (opened s)).2.built =
      .node .optionValue value :: ((t.held.map leaf).reverse ++ t.built) := by
    rw [← ht]
    exact ⟨_, rfl⟩
  obtain ⟨value, hbuilt⟩ := hvalue
  rw [hnew, built_bump hopened rfl] at hbuilt
  refine ⟨name, new.reverse ++ t.held.map leaf, value, ?_, hname, fun u hu => ?_⟩
  · rw [hbuilt]
    simp only [List.reverse_cons, List.reverse_append, List.reverse_reverse, List.append_assoc]
    rfl
  · rcases List.mem_append.mp hu with hu | hu
    · exact shape?_eq_none (hleaves u (List.mem_reverse.mp hu))
    · exact shape?_of_mem_leaves hu

/-- A report puts nothing in. -/
theorem built_reportIf (c : Prop) [Decidable c] (kind : DiagnosticKind) (detail : String)
    (s : State) : ((if c then reportWith kind detail else pure () : Parser Unit) s).2.built =
      s.built := by
  split
  · rw [reportWith_eq]
    rfl
  · rfl

theorem holdsNames_of_recipe (s : State) :
    Tree.HoldsNames (byRecipe.body (opened s)).2.built.reverse := by
  have hbump : Pushes (fun _ => false) Parser.bump := .bump
  have hitem : Pushes (· == .fieldItem) fieldItem := .node rfl
  obtain ⟨new, hnew, hleaves⟩ := hbump (opened s)
  obtain ⟨names, hnames, hall⟩ :=
    hitem.fieldListOf Kind.endsFieldList (Parser.bump (opened s)).2
  have hbuilt : (byRecipe.body (opened s)).2.built =
      (fieldList Kind.endsFieldList (Parser.bump (opened s)).2).2.built := built_reportIf _ _ _ _
  have hempty : (Parser.bump (opened s)).2.built = new := hnew.trans (List.append_nil new)
  generalize (Parser.bump (opened s)).2 = t at hnames hbuilt hempty
  refine ⟨new.reverse ++ t.held.map leaf, names, ?_, fun u hu => ?_, hall⟩
  · rw [hbuilt, fieldList, hnames, hempty, List.reverse_cons, List.reverse_append,
      List.reverse_reverse]
  · rcases List.mem_append.mp hu with hu | hu
    · exact shape?_eq_none (hleaves u (List.mem_reverse.mp hu))
    · exact shape?_of_mem_leaves hu

theorem made_partsHold : Made Tree.HoldsParts where
  other shape hnone _ _ := by
    constructor <;> rintro rfl <;> cases hnone
  recipe s shape recipe sight hrecipe hstarts hsight := by
    constructor <;> rintro rfl <;> obtain rfl := Option.some.inj hrecipe
    · exact holdsOption_of_recipe hstarts hsight
    · exact holdsNames_of_recipe s

end Grammar

/-! ## Where it stands in a tree -/

theorem Tree.exists_of_mem_placeAll {ts : List Tree} {start : Nat} {p : Placed}
    (hp : p ∈ Tree.placeAll start ts) : ∃ t ∈ ts, p.shape? = t.shape? := by
  obtain ⟨pre, t, post, rfl, rfl⟩ := Tree.mem_placeAll hp
  exact ⟨t, List.mem_append_right _ List.mem_cons_self, by cases t <;> rfl⟩

namespace Placed

variable {text : String} {limit : Nat} {n p : Placed} {ps : List Placed} {shape : Shape}

theorem isNode_of_shape?_eq_none (h : p.shape? = none) : p.isNode shape = false := by
  rw [isNode, h]
  rfl

theorem nodes_of_shape?_eq_none (h : p.shape? = none) : p.nodes = [] := by
  cases p with
  | leaf => rfl
  | node => cases h

theorem nodes_of_isNode (h : p.isNode shape = true) : p.nodes = p :: nodesOfAll p.children := by
  cases p with
  | leaf => cases h
  | node => rfl

theorem nodesOfAll_append (ps qs : List Placed) :
    nodesOfAll (ps ++ qs) = nodesOfAll ps ++ nodesOfAll qs := by
  induction ps with
  | nil => rfl
  | cons p ps ih => rw [List.cons_append, nodesOfAll, nodesOfAll, ih, List.append_assoc]

theorem nodesOfAll_eq_nil (h : ∀ p ∈ ps, p.shape? = none) : nodesOfAll ps = [] := by
  induction ps with
  | nil => rfl
  | cons p ps ih =>
    obtain ⟨hp, hps⟩ := List.forall_mem_cons.mp h
    rw [nodesOfAll, nodes_of_shape?_eq_none hp, ih hps, List.append_nil]

/-- Where only nodes of one shape stand, and under each of them nothing but lexemes, there are no
other nodes. -/
theorem nodesOfAll_eq_filter (h : ∀ p ∈ ps, p.shape? = none ∨ p.isNode shape = true ∧
    ∀ c ∈ p.children, c.shape? = none) : nodesOfAll ps = ps.filter (·.isNode shape) := by
  induction ps with
  | nil => rfl
  | cons p ps ih =>
    obtain ⟨hp, hps⟩ := List.forall_mem_cons.mp h
    rw [nodesOfAll, ih hps]
    rcases hp with hp | ⟨hp, hchildren⟩
    · rw [nodes_of_shape?_eq_none hp,
        List.filter_cons_of_neg (Bool.eq_false_iff.mp (isNode_of_shape?_eq_none hp))]
      rfl
    · rw [nodes_of_isNode hp, nodesOfAll_eq_nil hchildren, List.filter_cons_of_pos hp]
      rfl

/-- **An option has a name and a value**, in a tree of any text. -/
theorem exists_name_value (hn : n ∈ (parseQuery text limit).tree.nodes)
    (h : n.isNode .optionArg = true) : ∃ (name : Lexeme) (value : Placed),
      n.firstLexeme? = some name ∧ n.node? .optionValue = some value := by
  obtain ⟨before, shape, children, behind, -, rfl, hholds⟩ :=
    (parseTree_followed Grammar.made_partsHold text limit).of_mem_nodes hn
  obtain rfl : shape = .optionArg := Option.some.inj (eq_of_beq h)
  obtain ⟨name, between, value, rfl, hname, hbetween⟩ := hholds.1 rfl
  generalize 0 + Text.width _ = start
  refine ⟨⟨name.kind, start, name.text⟩,
    (Tree.node .optionValue value).place (start + name.text.utf8ByteSize + Tree.widthAll between),
    ?_, ?_⟩
  · have hfirst : ((State.leaf name).place start).lexeme? = some ⟨name.kind, start, name.text⟩ :=
      if_neg (Bool.eq_false_iff.mp hname)
    exact congrArg List.head? (List.filterMap_cons_some hfirst)
  · change ((Tree.leaf name.kind name.text).place start ::
      Tree.placeAll (start + name.text.utf8ByteSize) (between ++ [.node .optionValue value])).find?
        (·.isNode .optionValue) = _
    have hnone : (Tree.placeAll (start + name.text.utf8ByteSize) between).find?
        (·.isNode .optionValue) = none := by
      refine List.find?_eq_none.mpr fun p hp => Bool.eq_false_iff.mp ?_
      obtain ⟨t, ht, hshape⟩ := Tree.exists_of_mem_placeAll hp
      exact isNode_of_shape?_eq_none (hshape.trans (hbetween t ht))
    rw [List.find?_cons_of_neg (Bool.eq_false_iff.mp rfl), Tree.placeAll_append,
      List.find?_append, hnone]
    rfl

/-- What is grouped by is a list behind lexemes, and there are no nodes but names in the list. -/
theorem exists_names (hn : n ∈ (parseQuery text limit).tree.nodes) (h : n.isNode .byClause = true) :
    ∃ before list, n.children = before ++ [list] ∧ (∀ p ∈ before, p.shape? = none) ∧
      list.isNode .fieldList = true ∧
        ∀ p ∈ list.children, p.shape?.all (· == .fieldItem) = true := by
  obtain ⟨earlier, shape, children, behind, -, rfl, hholds⟩ :=
    (parseTree_followed Grammar.made_partsHold text limit).of_mem_nodes hn
  obtain rfl : shape = .byClause := Option.some.inj (eq_of_beq h)
  obtain ⟨before, names, rfl, hbefore, hnames⟩ := hholds.2 rfl
  refine ⟨_, _, Tree.placeAll_append _ _ _, fun p hp => ?_, rfl, fun p hp => ?_⟩
  · obtain ⟨t, ht, hshape⟩ := Tree.exists_of_mem_placeAll hp
    exact hshape.trans (hbefore t ht)
  · obtain ⟨t, ht, hshape⟩ := Tree.exists_of_mem_placeAll hp
    exact hshape ▸ hnames t ht

/-- Under the name of a field there are lexemes only. -/
theorem shape?_of_child_of_fieldItem (hn : n ∈ (parseQuery text limit).tree.nodes)
    (h : n.isNode .fieldItem = true) : ∀ c ∈ n.children, c.shape? = none := by
  obtain ⟨w⟩ := GluedNode.exists_of_mem_nodes hn h rfl
  rw [w.children]
  exact List.forall_mem_map.mpr fun _ _ => rfl

/-- **What is grouped by is one list of names**: there are no other names of fields in a clause of a
tree of any text. -/
theorem clauseItems_eq (hn : n ∈ (parseQuery text limit).tree.nodes)
    (h : n.isNode .byClause = true) : n.nodes.filter (·.isNode .fieldItem) = n.clauseItems := by
  obtain ⟨before, list, hchildren, hbefore, hlist, hnames⟩ := exists_names hn h
  have hmem : list ∈ (parseQuery text limit).tree.nodes := by
    refine mem_nodes_of_child hn ?_ (by rw [eq_of_beq hlist]; rfl)
    exact hchildren ▸ List.mem_append_right _ List.mem_cons_self
  have hitems : nodesOfAll list.children = list.nodesOf .fieldItem := by
    refine nodesOfAll_eq_filter fun p hp => ?_
    have hname := hnames p hp
    cases hshape : p.shape? with
    | none => exact .inl rfl
    | some s =>
      rw [hshape] at hname
      have hitem : p.isNode .fieldItem = true := by rwa [isNode, hshape]
      have hp := mem_nodes_of_child hmem hp (by rw [hshape]; rfl)
      exact .inr ⟨hitem, shape?_of_child_of_fieldItem hp hitem⟩
  have hnodes : n.nodes = n :: list :: list.nodesOf .fieldItem := by
    rw [nodes_of_isNode h, hchildren, nodesOfAll_append, nodesOfAll_eq_nil hbefore, nodesOfAll,
      nodesOfAll, nodes_of_isNode hlist, hitems, List.append_nil, List.nil_append]
  have hfound : n.node? .fieldList = some list := by
    have hearlier : before.find? (·.isNode .fieldList) = none :=
      List.find?_eq_none.mpr fun p hp =>
        Bool.eq_false_iff.mp (isNode_of_shape?_eq_none (hbefore p hp))
    rw [node?, hchildren, List.find?_append, hearlier]
    exact List.find?_cons_of_pos hlist
  have hother {p : Placed} {s : Shape} (hp : p.isNode s = true) (hs : s ≠ .fieldItem) :
      ¬p.isNode .fieldItem = true := fun hitem =>
    hs (Option.some.inj ((eq_of_beq hp).symm.trans (eq_of_beq hitem)))
  rw [hnodes, clauseItems, hfound, Option.elim_some, List.filter_cons_of_neg (hother h (by decide)),
    List.filter_cons_of_neg (hother hlist (by decide)), nodesOf, List.filter_filter]
  simp only [Bool.and_self]

end Placed

end SplQuery
