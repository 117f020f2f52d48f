import SplQuery.Proofs.Lexeme.Spaced
import SplQuery.Proofs.Steps.Primitive

/-!
# What a step of a parse puts into the tree

What a query means does not depend on its white space, its comments and its garbage. The bare form
of a tree is the tree without them: leaves that are trivia are left out, wherever they are.

Where nothing is wrong, a production reads the lexemes of certain trees and puts those trees in.
`Adds ts s t` says that from `s` to `t` the lexemes at the leaves of `ts` were read, and that the
trees `ts` were put into the innermost node, but for trivia. Such steps compose (`Adds.trans`), and
what they do can be found from the lexemes to come alone (`State.coming`), trivia left aside.

* `Tree.bare` — the tree without trivia.
* `Looks` — a question: nothing is read, and what comes next is no trivia.
* `Adds.close`, `Adds.wrap` — the trees of a node become one tree.
-/

namespace SplQuery

/-! ## Trees without trivia -/

namespace Tree

mutual

/-- The tree without trivia. Nothing is left of a leaf that is trivia itself. -/
def bare : Tree → List Tree
  | .leaf kind text => if kind.isTrivia then [] else [.leaf kind text]
  | .node shape children => [.node shape (bareAll children)]

/-- Trees without trivia. -/
def bareAll : List Tree → List Tree
  | [] => []
  | t :: ts => t.bare ++ bareAll ts

end

theorem bareAll_append (ts us : List Tree) : bareAll (ts ++ us) = bareAll ts ++ bareAll us := by
  induction ts with
  | nil => rfl
  | cons t ts ih => rw [List.cons_append, bareAll, ih, bareAll, List.append_assoc]

theorem bareAll_singleton (t : Tree) : bareAll [t] = t.bare := by
  rw [bareAll, bareAll, List.append_nil]

/-- Nothing is left of trivia. -/
theorem bareAll_map_leaf {ls : List Lexeme} (h : ∀ l ∈ ls, l.isTrivia = true) :
    bareAll (ls.map State.leaf) = [] := by
  induction ls with
  | nil => rfl
  | cons l ls ih =>
    obtain ⟨hl, hls⟩ := List.forall_mem_cons.mp h
    have hkind : l.kind.isTrivia = true := hl
    rw [List.map_cons, bareAll, ih hls, State.leaf, bare, if_pos hkind]
    rfl

theorem leavesOfAll_singleton (t : Tree) : leavesOfAll [t] = t.leaves := by
  rw [leavesOfAll, leavesOfAll, List.append_nil]

theorem leaves_node (shape : Shape) (children : List Tree) :
    (Tree.node shape children).leaves = leavesOfAll children := by rw [leaves]

end Tree

namespace State

/-! ## What is to come -/

/-- The lexemes to come as kinds and texts, trivia left aside. -/
def coming (s : State) : List (Kind × String) := s.ahead.map Lexeme.entry

/-- The lexeme directly ahead is no trivia. -/
def Ready (s : State) : Prop := ∀ l ∈ s.rest.head?, l.isTrivia = false

/-- Nothing but trivia is held back. -/
def Tidy (s : State) : Prop := ∀ l ∈ s.held, l.isTrivia = true

section Coming

variable {s : State} {k l : Kind} {w v : String} {r : List (Kind × String)}

theorem next?_of_coming (h : s.coming = (k, w) :: r) : s.next? = some k := by
  obtain ⟨x, xs, hx, hxk, -⟩ := List.map_eq_cons_iff.mp h
  rw [next?, hx]
  exact congrArg (fun e => some e.1) hxk

theorem next?_of_coming_nil (h : s.coming = []) : s.next? = none := by
  rw [next?, List.map_eq_nil_iff.mp h]
  rfl

theorem second?_of_coming (h : s.coming = (k, w) :: r) : s.second? = r.head?.map (·.1) := by
  obtain ⟨x, xs, hx, -, rfl⟩ := List.map_eq_cons_iff.mp h
  rw [second?, hx]
  cases xs <;> rfl

theorem next?_eq (s : State) : s.next? = s.coming.head?.map (·.1) := by
  unfold next? coming
  cases s.ahead <;> rfl

/-- A stage goes on at every lexeme but a pipe and a bracket that closes. -/
theorem atEnd_of_next? (h : s.next? = some k) (hpipe : k ≠ .pipe) (hbracket : k ≠ .rbracket) :
    s.atEnd = false := by
  rw [atEnd, h]
  cases k <;> first | rfl | exact absurd rfl hpipe | exact absurd rfl hbracket

/-- Where the next lexeme is no trivia, it is the first of those to come. -/
theorem Ready.rest (hs : s.Ready) (h : s.coming = (k, w) :: r) :
    ∃ l ls, s.rest = l :: ls ∧ l.entry = (k, w) ∧ l.isTrivia = false ∧
      (ls.filter (!·.isTrivia)).map Lexeme.entry = r := by
  rcases hrest : s.rest with _ | ⟨l, ls⟩
  · rw [coming, State.ahead, hrest] at h
    cases h
  · have hl : l.isTrivia = false := hs l (by rw [hrest]; rfl)
    rw [coming, State.ahead, hrest, List.filter_cons_of_pos (by rw [hl]; rfl), List.map_cons] at h
    obtain ⟨hentry, hls⟩ := List.cons.inj h
    exact ⟨l, ls, rfl, hentry, hl, hls⟩

theorem ready_skipTrivia (s : State) : s.skipTrivia.Ready := by
  intro l hl
  have h := List.head?_dropWhile_not Lexeme.isTrivia s.rest
  change (s.rest.dropWhile Lexeme.isTrivia).head? = some l at hl
  rw [hl] at h
  simpa using h

end Coming

/-! ## The relation -/

/-- From `s` to `t` the lexemes of `ts` were read and the trees `ts` were put into the innermost
node, but for trivia, and nothing was noted. -/
structure Adds (ts : List Tree) (s t : State) : Prop where
  coming : s.coming = Tree.leavesOfAll ts ++ t.coming
  rest : t.rest <:+ s.rest
  reports : t.reports = s.reports
  tidy : s.Tidy → t.Tidy
  built : s.Tidy → ∃ new, t.built = new ++ s.built ∧ Tree.bareAll new.reverse = ts

/-- From `s` to `t` nothing but trivia was read, and what comes next is none. -/
structure Looks (s t : State) : Prop where
  adds : Adds [] s t
  ready : t.Ready

section Compose

variable {s t u : State} {ts us : List Tree} {r : List (Kind × String)}

theorem Adds.refl (s : State) : Adds [] s s :=
  ⟨rfl, List.suffix_refl _, rfl, id, fun _ => ⟨[], rfl, rfl⟩⟩

theorem Adds.trans (h : Adds ts s t) (h' : Adds us t u) : Adds (ts ++ us) s u := by
  refine ⟨?_, h'.rest.trans h.rest, h'.reports.trans h.reports, h'.tidy ∘ h.tidy, fun hs => ?_⟩
  · rw [h.coming, h'.coming, Tree.leavesOfAll_append, List.append_assoc]
  · obtain ⟨new, hnew, hbare⟩ := h.built hs
    obtain ⟨new', hnew', hbare'⟩ := h'.built (h.tidy hs)
    refine ⟨new' ++ new, ?_, ?_⟩
    · rw [hnew', hnew, List.append_assoc]
    · rw [List.reverse_append, Tree.bareAll_append, hbare, hbare']

/-- What is to come after a step is what came after the lexemes that it has read. -/
theorem Adds.coming_eq (h : Adds ts s t) (hs : s.coming = Tree.leavesOfAll ts ++ r) :
    t.coming = r :=
  List.append_cancel_left (h.coming.symm.trans hs)

/-- After one tree there comes what came after its lexemes. -/
theorem Adds.after {T : Tree} (h : Adds [T] s t) (hs : s.coming = T.leaves ++ r) :
    t.coming = r := by
  rw [← Tree.leavesOfAll_singleton] at hs
  exact h.coming_eq hs

theorem Looks.coming (h : Looks s t) : t.coming = s.coming := h.adds.coming.symm

theorem Looks.then (h : Looks s t) (h' : Adds ts t u) : Adds ts s u := h.adds.trans h'

theorem Adds.andLooks (h : Adds ts s t) (h' : Looks t u) : Adds ts s u := by
  have hadds := h.trans h'.adds
  rwa [List.append_nil] at hadds

theorem Adds.looks (h : Adds [] s t) (h' : Looks t u) : Looks s u := ⟨h.andLooks h', h'.ready⟩

/-- What puts a lexeme into the tree leaves fewer to come. -/
theorem Adds.length_lt (h : Adds ts s t) (hts : Tree.leavesOfAll ts ≠ []) :
    t.coming.length < s.coming.length := by
  have hpos := List.length_pos_iff.mpr hts
  rw [h.coming, List.length_append]
  omega

theorem length_coming_le (s : State) : s.coming.length ≤ s.rest.length := by
  rw [State.coming, List.length_map]
  exact List.length_filter_le _ _

end Compose

/-! ## Changes of a state -/

theorem looks_skipTrivia (s : State) : Looks s s.skipTrivia := by
  refine ⟨⟨?_, List.dropWhile_suffix _, rfl, fun hs => ?_, fun _ => ⟨[], rfl, rfl⟩⟩,
    ready_skipTrivia s⟩
  · rw [coming, coming, ahead_skipTrivia]
    rfl
  · intro l hl
    rcases List.mem_append.mp hl with hl | hl
    · exact hs l hl
    · exact List.all_eq_true.mp List.all_takeWhile l hl

theorem looks_look {s : State} (hs : s.Ready) : Looks s s.look := by
  unfold look
  split <;> exact ⟨⟨rfl, List.suffix_refl _, rfl, id, fun _ => ⟨[], rfl, rfl⟩⟩, hs⟩

theorem adds_refresh (s : State) : Adds [] s s.refresh :=
  ⟨rfl, List.suffix_refl _, rfl, id, fun _ => ⟨[], rfl, rfl⟩⟩

theorem adds_drain (s : State) : Adds [] s s.drain := by
  refine ⟨rfl, List.suffix_refl _, rfl, fun _ => List.forall_mem_nil _, fun hs => ?_⟩
  refine ⟨(s.held.map leaf).reverse, rfl, ?_⟩
  rw [List.reverse_reverse]
  exact Tree.bareAll_map_leaf hs

/-- Reading a lexeme puts it into the tree as a leaf. -/
theorem adds_bump {s : State} {k : Kind} {w : String} {r : List (Kind × String)} (hs : s.Ready)
    (h : s.coming = (k, w) :: r) : Adds [.leaf k w] s s.bump := by
  obtain ⟨l, ls, hrest, hentry, htrivia, hr⟩ := hs.rest h
  obtain ⟨rfl, rfl⟩ := Prod.mk.inj hentry
  have hbump := bump_of_cons hrest
  refine ⟨?_, ?_, ?_, fun _ => ?_, fun htidy => ?_⟩
  · rw [h, hbump, coming, State.ahead, hr]
    rfl
  · rw [hbump, hrest]
    exact List.suffix_cons l ls
  · rw [hbump]
    rfl
  · rw [hbump]
    exact List.forall_mem_nil _
  · obtain ⟨new, hnew, hbare⟩ := (adds_drain s).built htidy
    refine ⟨leaf l :: new, ?_, ?_⟩
    · rw [hbump]
      change leaf l :: s.drain.built = _
      rw [hnew]
      rfl
    · rw [List.reverse_cons, Tree.bareAll_append, hbare, List.nil_append, Tree.bareAll_singleton,
        leaf, Tree.bare, if_neg]
      change ¬l.isTrivia = true
      rw [htrivia]
      exact Bool.false_ne_true

/-! ## Nodes -/

section Nodes

open SplQuery.Parser (opened cut sinceMark)

variable {s t m : State} {ts us : List Tree} {shape : Shape}

theorem ready_opened (hs : s.Ready) : (opened s).Ready := hs

/-- What is put into a node is put in as one tree. -/
theorem Adds.close (h : Adds ts (opened s) t) :
    Adds [.node shape ts] s (t.closeNode shape s.drain.built) := by
  have htidy : (opened s).Tidy := List.forall_mem_nil _
  refine ⟨?_, h.rest, h.reports, fun _ => h.tidy htidy, fun hs => ?_⟩
  · rw [Tree.leavesOfAll_singleton, Tree.leaves_node]
    exact h.coming
  · obtain ⟨new, hnew, hbare⟩ := h.built htidy
    obtain ⟨old, hold, hnone⟩ := (adds_drain s).built hs
    have hnew : t.built = new := hnew.trans (List.append_nil new)
    refine ⟨.node shape t.built.reverse :: old, ?_, ?_⟩
    · change _ :: s.drain.built = _
      rw [hold]
      rfl
    · rw [List.reverse_cons, Tree.bareAll_append, hnone, List.nil_append, Tree.bareAll_singleton,
        Tree.bare, hnew, hbare]

/-- What was put in since a mark goes into the node that is made there, before what is put in
from then on. -/
theorem Adds.wrap (h : Adds ts m s) (hm : m.Tidy) (h' : Adds us (cut m.built.length s) t) :
    Adds [.node shape (ts ++ us)] m
      (t.closeNode shape (s.built.drop (sinceMark m.built.length s))) := by
  obtain ⟨new, hnew, hbare⟩ := h.built hm
  have hsince : sinceMark m.built.length s = new.length := by
    rw [sinceMark, hnew, List.length_append, Nat.add_sub_cancel]
  have htake : (cut m.built.length s).built = new := by
    change s.built.take _ = new
    rw [hsince, hnew, List.take_left]
  have hdrop : s.built.drop (sinceMark m.built.length s) = m.built := by
    rw [hsince, hnew, List.drop_left]
  refine ⟨?_, h'.rest.trans h.rest, h'.reports.trans h.reports, fun _ => h'.tidy (h.tidy hm),
    fun _ => ?_⟩
  · rw [h.coming, Tree.leavesOfAll_singleton, Tree.leaves_node, Tree.leavesOfAll_append,
      List.append_assoc]
    exact congrArg _ h'.coming
  · obtain ⟨new', hnew', hbare'⟩ := h'.built (h.tidy hm)
    rw [htake] at hnew'
    refine ⟨[.node shape t.built.reverse], ?_, ?_⟩
    · rw [hdrop]
      rfl
    · rw [List.reverse_singleton, Tree.bareAll_singleton, Tree.bare, hnew', List.reverse_append,
        Tree.bareAll_append, hbare, hbare']

theorem ready_cut (mark : Nat) (hs : s.Ready) : (cut mark s).Ready := hs

end Nodes

end State

end SplQuery
