import SplQuery.Proofs.Law.Nodes
import SplQuery.Proofs.Reading.Primitive
import SplQuery.Query.Parse

/-!
# Values and names are written without a gap

The value of a search and the name of a field are made of lexemes that stand directly one after
another. They end before the first lexeme that may not be part of them, be it trivia or not, and
before no other one. So what is kept of them is a stretch of the text without any trivia in it. This
is so wherever they are read, since a lexeme has just been read whenever one is joined to it.

* `State.Joined` — what a step joins to the lexeme just read.
* `Grammar.gluedWhile_joins`, `Grammar.glues_of_recipe` — what is joined, and what a node holds.
* `GluedNode` — a node that is made of lexemes taken as one.
* `parseQuery_glued` — every value of a search and every name of a field in a text.
-/

namespace SplQuery

open State

/-! ## What is joined -/

namespace State

/-- From `s` to `t` lexemes of a class were put into the innermost node, each written directly
after the one before it, up to a lexeme that is none of them. -/
structure Joined (member : Kind → Bool) (s t : State) (read : List Lexeme) : Prop where
  rest : s.rest = read ++ t.rest
  held : t.held = []
  built : t.built = (read.map leaf).reverse ++ s.built
  members : ∀ l ∈ read, l.isTrivia = false ∧ member l.kind = true
  ends : ∀ l ∈ t.rest.head?, l.isTrivia = false → member l.kind = false

variable {member : Kind → Bool} {s t : State} {l : Lexeme} {ls read : List Lexeme}

theorem rest_bump (h : s.rest = l :: ls) : s.bump.rest = ls := by rw [bump_of_cons h]

theorem held_bump (h : s.rest = l :: ls) : s.bump.held = [] := by
  rw [bump_of_cons h]
  rfl

/-- With nothing held back, a lexeme that is read is put in by itself. -/
theorem built_bump (h : s.rest = l :: ls) (hheld : s.held = []) :
    s.bump.built = leaf l :: s.built := by
  rw [bump_of_cons h]
  change leaf l :: ((s.held.map leaf).reverse ++ s.built) = _
  rw [hheld]
  rfl

/-- Where no lexeme is to be joined, none is. -/
theorem joined_none (h : ∀ l ∈ s.rest.head?, l.isTrivia = false → member l.kind = false)
    (hheld : s.held = []) : Joined member s s [] := ⟨rfl, hheld, rfl, nofun, h⟩

theorem Joined.look (h : Joined member s.look t read) : Joined member s t read :=
  ⟨look_rest s ▸ h.rest, h.held, look_built s ▸ h.built, h.members, h.ends⟩

/-- Another lexeme is joined first. -/
theorem Joined.cons (hrest : s.rest = l :: ls) (hheld : s.held = []) (hl : l.isTrivia = false)
    (hmember : member l.kind = true) (h : Joined member s.bump t read) :
    Joined member s t (l :: read) := by
  refine ⟨?_, h.held, ?_, List.forall_mem_cons.mpr ⟨⟨hl, hmember⟩, h.members⟩, h.ends⟩
  · rw [hrest, List.cons_append, ← h.rest, rest_bump hrest]
  · rw [h.built, built_bump hrest hheld, List.map_cons, List.reverse_cons, List.append_assoc]
    rfl

end State

namespace Grammar

open SplQuery.Parser

variable {member : Kind → Bool} {s : State} {l : Lexeme} {ls : List Lexeme}

/-- Joins the next lexeme, if it is written directly after the one just read and of a class. -/
def gluedRound (member : Kind → Bool) : Parser Bool := do
  unless ← glued do return false
  if (← adjacent).any member then
    bump
    return true
  return false

theorem gluedWhile_eq (member : Kind → Bool) : gluedWhile member = whileTrue (gluedRound member) :=
  rfl

theorem gluedRound_eq (member : Kind → Bool) (s : State) : gluedRound member s =
    if s.rest.head?.any (!·.isTrivia) = true then
      if (s.rest.head?.map (·.kind)).any member = true then (true, s.look.bump) else (false, s.look)
    else (false, s) := by
  rw [gluedRound, touching_eq]
  split
  · split <;> rfl
  · rfl

theorem gluedRound_goes (hrest : s.rest = l :: ls) (hl : l.isTrivia = false)
    (hmember : member l.kind = true) : gluedRound member s = (true, s.look.bump) := by
  rw [gluedRound_eq, hrest, List.head?_cons, Option.any_some, hl, Option.map_some, Option.any_some,
    hmember]
  rfl

theorem gluedRound_stops (hheld : s.held = [])
    (h : ∀ l ∈ s.rest.head?, l.isTrivia = false → member l.kind = false) :
    Ends (gluedRound member) s fun goes t => goes = false ∧ Joined member s t [] := by
  rw [Ends, gluedRound_eq]
  split
  · next hglued =>
    obtain ⟨l, hl, hsolid⟩ := (Option.any_eq_true _ _).mp hglued
    rw [hl, Option.map_some, Option.any_some, h l hl (by simpa using hsolid)]
    refine ⟨rfl, Joined.look (joined_none ?_ ((look_held s).trans hheld))⟩
    rwa [look_rest]
  · exact ⟨rfl, joined_none h hheld⟩

/-- Lexemes are joined as long as there are any. -/
theorem loops_glued (hheld : s.held = []) :
    Loops (gluedRound member) s fun t => ∃ read, Joined member s t read := by
  -- along the lexemes to come, of which each round reads one
  generalize hrest : s.rest = ls
  induction ls generalizing s with
  | nil =>
    refine .last ((gluedRound_stops hheld ?_).mono fun _ t h => ⟨h.1, [], h.2⟩)
    rw [hrest]
    nofun
  | cons l ls ih =>
    by_cases hgoes : l.isTrivia = false ∧ member l.kind = true
    · have hlook : s.look.rest = l :: ls := (look_rest s).trans hrest
      refine .more ?_
      rw [Ends, gluedRound_goes hrest hgoes.1 hgoes.2]
      refine ⟨rfl, ?_, (ih (held_bump hlook) (rest_bump hlook)).mono fun t ht => ?_⟩
      · rw [coming, coming, State.ahead, State.ahead, rest_bump hlook, hrest,
          List.filter_cons_of_pos (by rw [hgoes.1]; rfl), List.map_cons]
        exact Nat.lt_succ_self _
      · obtain ⟨read, hread⟩ := ht
        exact ⟨l :: read, (hread.cons hlook ((look_held s).trans hheld) hgoes.1 hgoes.2).look⟩
    · refine .last ((gluedRound_stops hheld ?_).mono fun _ t h => ⟨h.1, [], h.2⟩)
      rw [hrest]
      rintro _ ⟨⟩ hl
      exact Bool.eq_false_iff.mpr fun hmember => hgoes ⟨hl, hmember⟩

/-- **What is joined** to the lexeme just read. -/
theorem gluedWhile_joins (member : Kind → Bool) (hheld : s.held = []) :
    Ends (gluedWhile member) s fun _ t => ∃ read, Joined member s t read := by
  rw [gluedWhile_eq]
  exact whileTrue_of_loops (loops_glued hheld)

end Grammar

/-! ## Nodes -/

namespace Grammar

open SplQuery.Parser

/-- Before other lexemes some are taken as one: they are joined to the first of them, and the next
one is not. -/
structure Gluing.Takes (gluing : Gluing) (first : Kind × String)
    (more after : List (Kind × String)) : Prop where
  isFirst : first.1.isTrivia = false ∧ gluing.first first.1 = true
  isMore : ∀ e ∈ more, e.1.isTrivia = false ∧ gluing.more e.1 = true
  isLast : ∀ e ∈ after.head?, e.1.isTrivia = false → gluing.more e.1 = false

/-- A node of a shape for lexemes that are taken as one holds such lexemes and nothing else. -/
def Glues (after : List (Kind × String)) (shape : Shape) (children : List Tree) : Prop :=
  ∀ gluing ∈ gluing? shape, ∃ ls : List Lexeme, children = ls.map leaf ∧
    ∃ first more, ls.map Lexeme.entry = first :: more ∧ gluing.Takes first more after

variable {shape : Shape} {gluing : Gluing}

theorem recipe?_of_gluing? (h : gluing? shape = some gluing) :
    recipe? shape = some (gluingRecipe gluing) := by
  cases shape <;> cases h <;> rfl

/-- No trivia is joined to anything. -/
theorem more_of_trivia (h : gluing? shape = some gluing) {k : Kind} (hk : k.isTrivia = true) :
    gluing.more k = false := by
  cases shape <;> cases h <;> cases k <;> first | rfl | cases hk

/-- What is taken as one is put into the tree as one node. -/
theorem glues_of_recipe {s : State} {sight : Sight} (h : gluing? shape = some gluing)
    (hstarts : (gluingRecipe gluing).starts sight = true) (hsight : sight.Holds s) :
    Glues ((gluingRecipe gluing).body (opened s)).2.afterwards shape
      ((gluingRecipe gluing).body (opened s)).2.built.reverse := by
  obtain ⟨k, hfirst, hk⟩ := (Option.any_eq_true _ _).mp hstarts
  obtain ⟨hready, hnext⟩ := hsight.ready hfirst
  obtain ⟨l, ls, hrest, rfl, hl⟩ := hready.rest_of_next? hnext
  have hopened : (opened s).rest = l :: ls := hrest
  obtain ⟨read, hjoined⟩ := gluedWhile_joins gluing.more (held_bump hopened)
  intro gluing' h'
  obtain rfl := Option.some.inj (h.symm.trans h')
  refine ⟨l :: read, ?_, l.entry, read.map Lexeme.entry, rfl,
    ⟨hl, hk⟩, List.forall_mem_map.mpr hjoined.members, ?_⟩
  · change (gluedWhile gluing.more (opened s).bump).2.built.reverse = _
    rw [hjoined.built, built_bump hopened rfl, List.reverse_append, List.reverse_reverse]
    rfl
  · change ∀ e ∈ (gluedWhile gluing.more (opened s).bump).2.afterwards.head?, _
    rw [afterwards, hjoined.held, List.nil_append, List.head?_map]
    intro e he
    obtain ⟨m, hm, rfl⟩ := Option.map_eq_some_iff.mp he
    exact hjoined.ends m hm

theorem made_glues : Made Glues where
  other shape hnone _ _ gluing h := by
    rw [recipe?_of_gluing? h] at hnone
    cases hnone
  recipe s shape recipe sight hrecipe hstarts hsight := by
    intro gluing h
    obtain rfl := Option.some.inj (hrecipe.symm.trans (recipe?_of_gluing? h))
    exact glues_of_recipe h hstarts hsight gluing h

end Grammar

/-! ## Lexemes in a tree -/

namespace Lexeme

/-- The lexeme as a leaf of a placed tree. -/
def placed (l : Lexeme) : Placed := .leaf l.span l.kind l.text

variable {ls : List Lexeme} {start stop : Nat}

/-- A leaf says nothing of the place of its lexeme. -/
theorem map_leaf_congr {ms : List Lexeme} (h : ls.map entry = ms.map entry) :
    ls.map leaf = ms.map leaf := by
  have hleaf : leaf = (fun e : Kind × String => Tree.leaf e.1 e.2) ∘ entry := rfl
  rw [hleaf, ← List.map_map, h, List.map_map]

theorem placeAll_leaves (h : Adjoin start ls stop) :
    Tree.placeAll start (ls.map leaf) = ls.map placed := by
  induction ls generalizing start with
  | nil => rfl
  | cons l ls ih =>
    obtain ⟨rfl, hls⟩ := h
    rw [List.map_cons, Tree.placeAll, List.map_cons, ← ih hls]
    rfl

theorem leavesOfAll_placed (ls : List Lexeme) :
    Placed.leavesOfAll (ls.map placed) = ls.map entry := by
  induction ls with
  | nil => rfl
  | cons l ls ih =>
    rw [List.map_cons, Placed.leavesOfAll, ih]
    rfl

/-- Lexemes that are no trivia cover all between the first and the last. -/
theorem coreOfAll_placed (h : Adjoin start ls stop) (hsolid : ∀ l ∈ ls, l.isTrivia = false)
    (hne : ls ≠ []) : Placed.coreOfAll (ls.map placed) = some ⟨start, stop⟩ := by
  induction ls generalizing start with
  | nil => exact absurd rfl hne
  | cons l ls ih =>
    obtain ⟨rfl, hls⟩ := h
    obtain ⟨hl, hsolid⟩ := List.forall_mem_cons.mp hsolid
    have hcore : l.placed.core? = some l.span := if_neg (Bool.eq_false_iff.mp hl)
    rw [List.map_cons, Placed.coreOfAll_cons, hcore]
    cases ls with
    | nil =>
      obtain rfl : l.stop = stop := hls
      rfl
    | cons m ms =>
      rw [ih hls hsolid (List.cons_ne_nil _ _)]
      rfl

end Lexeme

theorem Placed.dropOuterTrivia_of_solid {es : List (Kind × String)}
    (h : ∀ e ∈ es, e.1.isTrivia = false) : Placed.dropOuterTrivia es = es := by
  have hdrop {bs : List (Kind × String)} (hbs : ∀ e ∈ bs, e.1.isTrivia = false) :
      bs.dropWhile (·.1.isTrivia) = bs := by
    cases bs with
    | nil => rfl
    | cons b bs =>
      exact List.dropWhile_cons_of_neg (Bool.eq_false_iff.mp (hbs b List.mem_cons_self))
  rw [Placed.dropOuterTrivia, hdrop h, hdrop fun e he => h e (List.mem_reverse.mp he),
    List.reverse_reverse]

/-- A node of a tree that is made of lexemes of a text which are taken as one. -/
structure GluedNode (text : String) (gluing : Grammar.Gluing) (n : Placed) where
  before : List Lexeme
  first : Lexeme
  more : List Lexeme
  after : List Lexeme
  lexemes : lex text = before ++ (first :: more ++ after)
  children : n.children = (first :: more).map Lexeme.placed
  isMade : ∃ start shape, n = .ofChildren start shape n.children
  isFirst : first.isTrivia = false ∧ gluing.first first.kind = true
  isMore : ∀ l ∈ more, l.isTrivia = false ∧ gluing.more l.kind = true
  isLast : ∀ l ∈ after.head?, gluing.more l.kind = false

namespace GluedNode

open Lexeme

variable {text : String} {shape : Shape} {gluing : Grammar.Gluing} {n : Placed}

/-- Every node of a shape for lexemes that are taken as one is made of such lexemes. -/
theorem exists_of_mem_nodes {limit : Nat} (hn : n ∈ (parseQuery text limit).tree.nodes)
    (hshape : n.isNode shape = true) (hgluing : Grammar.gluing? shape = some gluing) :
    Nonempty (GluedNode text gluing n) := by
  obtain ⟨before, shape', children, behind, hleaves, rfl, hholds⟩ :=
    (parseTree_followed Grammar.made_glues text limit).of_mem_nodes hn
  obtain rfl : shape' = shape := Option.some.inj (eq_of_beq hshape)
  obtain ⟨ls, rfl, first, more, hread, hfirst, hmore, hlast⟩ := hholds gluing hgluing
  -- the lexemes of the text fall into those before the node, in it and behind it
  have hlex : (lex text).map entry = before ++ (ls.map entry ++ behind) := by
    rw [← Parse.leaves_ofLexemes (lex text) text.utf8ByteSize limit, ← Tree.leavesOfAll_map_leaf]
    exact hleaves
  obtain ⟨before, rest, hsplit, rfl, hrest⟩ := List.map_eq_append_iff.mp hlex
  obtain ⟨inside, behind, rfl, hinside, rfl⟩ := List.map_eq_append_iff.mp hrest
  have hleaves : ls.map leaf = inside.map leaf := map_leaf_congr hinside.symm
  obtain ⟨l, ms, rfl, rfl, rfl⟩ := List.map_eq_cons_iff.mp (hinside.trans hread)
  refine ⟨⟨before, l, ms, behind, hsplit, ?_, ⟨_, _, rfl⟩, hfirst,
    List.forall_mem_map.mp hmore, ?_⟩⟩
  · obtain ⟨place, hbefore, hrest⟩ := adjoin_append_iff.mp (hsplit ▸ lex_adjoin text)
    obtain ⟨_, hinside, -⟩ := adjoin_append_iff.mp hrest
    have hplace : 0 + Text.width ((before.map entry).flatMap (·.2.toList)) = place := by
      rw [hbefore.stop_eq, List.flatMap_map]
      rfl
    rw [hleaves, hplace]
    exact placeAll_leaves hinside
  · intro m hm
    cases htrivia : m.kind.isTrivia with
    | true => exact Grammar.more_of_trivia hgluing htrivia
    | false =>
      refine hlast m.entry ?_ htrivia
      rw [List.append_nil, List.head?_map, hm]
      rfl

/-! ## What is kept of them -/

variable (w : GluedNode text gluing n)

theorem solid : ∀ l ∈ w.first :: w.more, l.isTrivia = false :=
  List.forall_mem_cons.mpr ⟨w.isFirst.1, fun l hl => (w.isMore l hl).1⟩

theorem leaves : n.leaves = (w.first :: w.more).map entry := by
  have hchildren : n.leaves = Placed.leavesOfAll n.children := by
    obtain ⟨start, shape, hmade⟩ := w.isMade
    generalize n.children = children at hmade ⊢
    rw [hmade, Placed.ofChildren, Placed.leaves]
  rw [hchildren, w.children, leavesOfAll_placed]

/-- The text of the node is made of its lexemes. -/
theorem toList_text : n.text.toList = texts (w.first :: w.more) := by
  have hsolid : ∀ e ∈ n.leaves, e.1.isTrivia = false := by
    rw [w.leaves]
    exact List.forall_mem_map.mpr w.solid
  rw [Placed.text, Placed.dropOuterTrivia_of_solid hsolid, ite_self, String.toList_join, w.leaves,
    List.map_map, List.flatMap_map]
  rfl

/-- The text of the node is a stretch of the text. -/
theorem slice : text.toList = texts w.before ++ (n.text.toList ++ texts w.after) := by
  rw [← lex_texts, w.lexemes, texts_append, texts_append, w.toList_text]

/-- The node covers this stretch. -/
theorem core : n.core =
    ⟨Text.width (texts w.before), Text.width (texts w.before) + n.text.utf8ByteSize⟩ := by
  obtain ⟨start, shape, hmade⟩ := w.isMade
  obtain ⟨place, hbefore, hrest⟩ := adjoin_append_iff.mp (w.lexemes ▸ lex_adjoin text)
  obtain ⟨stop, hinside, -⟩ := adjoin_append_iff.mp hrest
  have hcore : n.core? = some ⟨place, stop⟩ := by
    have hall := coreOfAll_placed hinside w.solid (List.cons_ne_nil _ _)
    rw [← w.children] at hall
    rw [hmade]
    exact hall
  rw [Placed.core, hcore, Option.getD_some, hinside.stop_eq, hbefore.stop_eq,
    Text.utf8ByteSize_eq_width, w.toList_text, Nat.zero_add]

theorem lexemes_eq : n.lexemes = w.first :: w.more := by
  have hlexeme : ∀ l ∈ w.first :: w.more, l.placed.lexeme? = some l :=
    fun l hl => if_neg (Bool.eq_false_iff.mp (w.solid l hl))
  rw [Placed.lexemes, w.children, List.filterMap_map]
  exact (List.filterMap_congr hlexeme).trans List.filterMap_some

/-- A value of a search is kept as it is written, but for the quotes of a single string literal. -/
theorem searchText : Meaning.searchText n =
    if w.more = [] ∧ w.first.kind = .stringLiteral then Text.unquote n.text else n.text := by
  rw [Meaning.searchText, Meaning.quotedValue?, w.lexemes_eq]
  cases hmore : w.more with
  | cons l ls => rfl
  | nil =>
    have htext : n.text = w.first.text := by
      rw [← String.toList_inj, w.toList_text, hmore]
      exact List.append_nil _
    by_cases hkind : w.first.kind = .stringLiteral
    · rw [if_pos ⟨rfl, hkind⟩]
      simp only [hkind, if_true, htext]
    · rw [if_neg fun h => hkind h.2]
      simp only [hkind, if_false]

end GluedNode

/-- **Values of searches and names of fields are written without a gap.** Each is made of a first
lexeme and all those that are written directly after it and may be joined to it, and the next
lexeme may not. Its text is that stretch of the query. This is what is kept of it, but for quotes
around it. -/
theorem parseQuery_glued {text : String} {limit : Nat} {shape : Shape} {gluing : Grammar.Gluing}
    {n : Placed} (hn : n ∈ (parseQuery text limit).tree.nodes) (hshape : n.isNode shape = true)
    (hgluing : Grammar.gluing? shape = some gluing) :
    ∃ w : GluedNode text gluing n,
      text.toList = Lexeme.texts w.before ++ (n.text.toList ++ Lexeme.texts w.after) ∧
      n.core = ⟨Text.width (Lexeme.texts w.before),
        Text.width (Lexeme.texts w.before) + n.text.utf8ByteSize⟩ ∧
      (Meaning.searchText n =
        if w.more = [] ∧ w.first.kind = .stringLiteral then Text.unquote n.text else n.text) ∧
      n.fieldRef = ⟨Text.unquote n.text, n.core⟩ := by
  obtain ⟨w⟩ := GluedNode.exists_of_mem_nodes hn hshape hgluing
  exact ⟨w, w.slice, w.core, w.searchText, rfl⟩

/-- A value of several lexemes before a space. -/
theorem parseQuery_glued_sample : ∃ n ∈ (parseQuery "k=a-b* c" 128).tree.nodes,
    n.isNode .searchValue = true ∧
      Grammar.gluing? .searchValue = some ⟨Kind.isGlue, Kind.isGlue⟩ ∧ n.text = "a-b*" ∧
        ∃ w : GluedNode "k=a-b* c" ⟨Kind.isGlue, Kind.isGlue⟩ n,
          "k=a-b* c".toList = Lexeme.texts w.before ++ (n.text.toList ++ Lexeme.texts w.after) := by
  have hvalue : ((parseQuery "k=a-b* c" 128).tree.nodes.any fun n =>
      n.isNode .searchValue && n.text == "a-b*") = true := by
    decide +kernel
  obtain ⟨n, hn, hboth⟩ := List.any_eq_true.mp hvalue
  obtain ⟨hshape, htext⟩ := Bool.and_eq_true_iff.mp hboth
  obtain ⟨w, hslice, -⟩ := parseQuery_glued hn hshape rfl
  exact ⟨n, hn, hshape, rfl, eq_of_beq htext, w, hslice⟩

end SplQuery
