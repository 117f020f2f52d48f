import SplQuery.Proofs.Made.Faults
import SplQuery.Proofs.Made.Notes

/-!
# Two parses side by side

Two parses of different queries go on in the same way as long as what they find ahead is the same in
all that a parse looks at. A `Coupling` says what is taken to be the same: of the trees put together
so far, of the lexemes to come, and of the notes. One of the queries may end where the other goes on
with a pipe.

* `Coupling` — what is compared, and what the grammar needs of it.
* `Ahead` — what both find where neither has trivia.
* `Twin` — two states that are the same in this way.
-/

namespace SplQuery

open State

/-- The lexemes that are to come in one query and in the other, from a place where neither has
trivia. -/
inductive Ahead (unread : Nat → List Lexeme → List Lexeme → Prop) (depth : Nat) :
    List Lexeme → List Lexeme → Prop where
  /-- both end -/
  | ended : Ahead unread depth [] []
  /-- the same lexeme is next in both -/
  | lexeme {l m : Lexeme} {a b : List Lexeme} (hentry : l.entry = m.entry)
      (hrest : unread (l.kind.depthAfter depth) a b) : Ahead unread depth (l :: a) (m :: b)
  /-- one goes on with a pipe outside all delimiters, and the other ends -/
  | piped {l : Lexeme} {a : List Lexeme} (hpipe : l.kind = .pipe) (hdepth : depth = 0) :
      Ahead unread depth (l :: a) []

theorem Ahead.elim {unread : Nat → List Lexeme → List Lexeme → Prop} {depth : Nat}
    {a b : List Lexeme} (h : Ahead unread depth a b) :
    (a = [] ∧ b = []) ∨
      (∃ l m a' b', a = l :: a' ∧ b = m :: b' ∧ l.entry = m.entry ∧
        unread (l.kind.depthAfter depth) a' b') ∨
      ∃ l a', a = l :: a' ∧ b = [] ∧ l.kind = .pipe ∧ depth = 0 := by
  cases h with
  | ended => exact .inl ⟨rfl, rfl⟩
  | lexeme hentry hrest => exact .inr (.inl ⟨_, _, _, _, rfl, rfl, hentry, hrest⟩)
  | piped hpipe hdepth => exact .inr (.inr ⟨_, _, rfl, rfl, hpipe, hdepth⟩)

/-- What is taken to be the same in two parses. -/
structure Coupling where
  /-- what is compared of trees -/
  view : List Tree → List Tree
  /-- what is compared of the lexemes to come, with so many delimiters open -/
  unread : Nat → List Lexeme → List Lexeme → Prop
  /-- what is compared of the notes -/
  noted : Notes → Notes → Prop
  view_append (ts us : List Tree) : view (ts ++ us) = view ts ++ view us
  view_node {ts us : List Tree} (shape : Shape) (h : view ts = view us) :
    view [.node shape ts] = view [.node shape us]
  /-- delimiters may be forgotten -/
  outside {depth : Nat} {a b : List Lexeme} (h : unread depth a b) : unread 0 a b
  skip {depth : Nat} {a b : List Lexeme} (h : unread depth a b) :
    unread depth (a.dropWhile Lexeme.isTrivia) (b.dropWhile Lexeme.isTrivia)
  skipped {depth : Nat} {a b : List Lexeme} (h : unread depth a b) :
    view ((a.takeWhile Lexeme.isTrivia).map leaf) = view ((b.takeWhile Lexeme.isTrivia).map leaf)
  ahead {depth : Nat} {a b : List Lexeme} (h : unread depth a b)
    (ha : ∀ l ∈ a.head?, l.isTrivia = false) (hb : ∀ l ∈ b.head?, l.isTrivia = false) :
    Ahead unread depth a b
  /-- a lexeme that is no trivia is directly ahead in both or in neither -/
  touching {depth : Nat} {a b : List Lexeme} (h : unread depth a b) (hb : b ≠ []) :
    a.head?.any (!·.isTrivia) = b.head?.any (!·.isTrivia)
  /-- trivia that is read is the same -/
  blindly {depth : Nat} {l m : Lexeme} {a b : List Lexeme} (h : unread depth (l :: a) (m :: b))
    (hl : l.isTrivia = true) (hm : m.isTrivia = true) :
    view [leaf l] = view [leaf m] ∧
      view ((a.takeWhile Lexeme.isTrivia).map leaf) = view ((b.takeWhile Lexeme.isTrivia).map leaf)
  told {n m : Notes} {a b : List Lexeme} (h : noted n m) (hrest : unread 0 a b)
    (ha : ∀ l ∈ a.head?, l.isTrivia = false) (hb : ∀ l ∈ b.head?, l.isTrivia = false)
    (kind : DiagnosticKind) (detail : Option String) :
    noted (n.toldAt kind (n.spanAhead a) detail) (m.toldAt kind (m.spanAhead b) detail)
  opened {n m : Notes} {a b : List Lexeme} (h : noted n m) (hrest : unread 0 a b)
    (ha : ∀ l ∈ a.head?, l.isTrivia = false) (hb : ∀ l ∈ b.head?, l.isTrivia = false)
    (kind : Kind) : noted (n.opened kind (n.spanAhead a)) (m.opened kind (m.spanAhead b))
  closed {n m : Notes} (h : noted n m) : noted n.closed m.closed
  unclosed {n m : Notes} {a b : List Lexeme} (h : noted n m) (hrest : unread 0 a b)
    (ha : ∀ l ∈ a.head?, l.isTrivia = false) (hb : ∀ l ∈ b.head?, l.isTrivia = false)
    (kind : DiagnosticKind) :
    noted (n.unclosed kind (n.spanAhead a)) (m.unclosed kind (m.spanAhead b))
  tooDeep {n m : Notes} {a b : List Lexeme} (h : noted n m) (hrest : unread 0 a b)
    (ha : ∀ l ∈ a.head?, l.isTrivia = false) (hb : ∀ l ∈ b.head?, l.isTrivia = false) :
    noted (n.tooDeep (n.spanAhead a)) (m.tooDeep (m.spanAhead b))
  entered {n m : Notes} (h : noted n m) (word : Option CommandWord) :
    noted (n.entered word) (m.entered word)
  left {n m : Notes} (h : noted n m) : noted n.left m.left

/-- Neither query ends where the other goes on. -/
def Coupling.Tight (C : Coupling) : Prop :=
  ∀ ⦃depth : Nat⦄ ⦃a : List Lexeme⦄, C.unread depth a [] → (∀ l ∈ a.head?, l.isTrivia = false) →
    a = []

variable {C : Coupling}

/-- Two states that are the same, with so many delimiters open, when only trees put in after `outer`
and `outer'` are compared. -/
structure Twin (C : Coupling) (depth : Nat) (outer outer' : List Tree) (s t : State) : Prop where
  built : ∃ new new', s.built = new ++ outer ∧ t.built = new' ++ outer' ∧
    C.view new.reverse = C.view new'.reverse
  held : C.view (s.held.map leaf) = C.view (t.held.map leaf)
  rest : C.unread depth s.rest t.rest
  notes : C.noted s.notes t.notes

namespace Twin

variable {depth : Nat} {outer outer' : List Tree} {s t : State}

theorem outside (h : Twin C depth outer outer' s t) : Twin C 0 outer outer' s t :=
  ⟨h.built, h.held, C.outside h.rest, h.notes⟩

/-- What is compared is not changed. -/
theorem congr {s' t' : State} (h : Twin C depth outer outer' s t) (hbuilt : s'.built = s.built)
    (hheld : s'.held = s.held) (hrest : s'.rest = s.rest) (hnotes : s'.notes = s.notes)
    (hbuilt' : t'.built = t.built) (hheld' : t'.held = t.held) (hrest' : t'.rest = t.rest)
    (hnotes' : t'.notes = t.notes) : Twin C depth outer outer' s' t' := by
  refine ⟨?_, ?_, ?_, ?_⟩
  · rw [hbuilt, hbuilt']
    exact h.built
  · rw [hheld, hheld']
    exact h.held
  · rw [hrest, hrest']
    exact h.rest
  · rw [hnotes, hnotes']
    exact h.notes

theorem withNotes {n m : Notes} (h : Twin C depth outer outer' s t) (hnotes : C.noted n m) :
    Twin C depth outer outer' (s.withNotes n) (t.withNotes m) :=
  ⟨h.built, h.held, h.rest, hnotes⟩

theorem skipTrivia (h : Twin C depth outer outer' s t) :
    Twin C depth outer outer' s.skipTrivia t.skipTrivia := by
  refine ⟨h.built, ?_, C.skip h.rest, h.notes⟩
  change C.view ((s.held ++ _).map leaf) = C.view ((t.held ++ _).map leaf)
  rw [List.map_append, List.map_append, C.view_append, C.view_append, h.held, C.skipped h.rest]

theorem lookLeft (h : Twin C depth outer outer' s t) : Twin C depth outer outer' s.look t := by
  refine h.congr ?_ ?_ (look_rest s) (notes_look s) rfl rfl rfl rfl <;>
    unfold State.look <;> split <;> rfl

theorem look (h : Twin C depth outer outer' s t) : Twin C depth outer outer' s.look t.look := by
  refine h.lookLeft.congr rfl rfl rfl rfl ?_ ?_ (look_rest t) (notes_look t) <;>
    unfold State.look <;> split <;> rfl

theorem refresh (h : Twin C depth outer outer' s t) :
    Twin C depth outer outer' s.refresh t.refresh :=
  h.congr rfl rfl rfl rfl rfl rfl rfl rfl

theorem drain (h : Twin C depth outer outer' s t) : Twin C depth outer outer' s.drain t.drain := by
  obtain ⟨new, new', hnew, hnew', hview⟩ := h.built
  refine ⟨⟨(s.held.map leaf).reverse ++ new, (t.held.map leaf).reverse ++ new', ?_, ?_, ?_⟩,
    rfl, h.rest, h.notes⟩
  · rw [List.append_assoc, ← hnew]
    rfl
  · rw [List.append_assoc, ← hnew']
    rfl
  · rw [List.reverse_append, List.reverse_append, List.reverse_reverse, List.reverse_reverse,
      C.view_append, C.view_append, hview, h.held]

/-- What both find ahead, where neither has trivia. -/
theorem ahead (h : Twin C depth outer outer' s t) (hs : s.Ready) (ht : t.Ready) :
    Ahead C.unread depth s.rest t.rest := C.ahead h.rest hs ht

theorem aheadSkipped (h : Twin C depth outer outer' s t) :
    Ahead C.unread depth s.skipTrivia.rest t.skipTrivia.rest :=
  h.skipTrivia.ahead (ready_skipTrivia s) (ready_skipTrivia t)

theorem leaf_eq {l m : Lexeme} (h : l.entry = m.entry) : leaf l = leaf m := by
  obtain ⟨hkind, htext⟩ := Prod.mk.inj h
  rw [leaf, leaf, hkind, htext]

/-- A lexeme is read in both. -/
theorem built_bump {l m : Lexeme} {a b : List Lexeme} (h : Twin C depth outer outer' s t)
    (hs : s.rest = l :: a) (ht : t.rest = m :: b) (hview : C.view [leaf l] = C.view [leaf m]) :
    ∃ new new', s.bump.built = new ++ outer ∧ t.bump.built = new' ++ outer' ∧
      C.view new.reverse = C.view new'.reverse := by
  obtain ⟨new, new', hnew, hnew', hnews⟩ := h.drain.built
  refine ⟨leaf l :: new, leaf m :: new', ?_, ?_, ?_⟩
  · rw [bump_of_cons hs, List.cons_append, ← hnew]
  · rw [bump_of_cons ht, List.cons_append, ← hnew']
  · rw [List.reverse_cons, List.reverse_cons, C.view_append, C.view_append, hnews, hview]

/-- The same lexeme is read. -/
theorem bump {l m : Lexeme} {a b : List Lexeme} (h : Twin C depth outer outer' s t)
    (hs : s.rest = l :: a) (ht : t.rest = m :: b) (hentry : l.entry = m.entry)
    (hrest : C.unread (l.kind.depthAfter depth) a b) :
    Twin C (l.kind.depthAfter depth) outer outer' s.bump t.bump := by
  refine ⟨h.built_bump hs ht (by rw [leaf_eq hentry]), ?_, ?_, ?_⟩
  · rw [bump_of_cons hs, bump_of_cons ht]
    rfl
  · rw [bump_of_cons hs, bump_of_cons ht]
    exact hrest
  · rw [notes_bump, notes_bump]
    exact h.notes

/-- The same kind is next, unless one of the queries ends before a pipe. -/
theorem next? (h : Twin C depth outer outer' s t) :
    s.next? = t.next? ∨ s.next? = some .pipe ∧ t.next? = none := by
  rw [← next?_skipTrivia s, ← next?_skipTrivia t]
  obtain ⟨hs, ht⟩ | ⟨l, m, a, b, hs, ht, hentry, -⟩ | ⟨l, a, hs, ht, hpipe, -⟩ :=
    h.aheadSkipped.elim
  · exact .inl ((next?_of_nil hs).trans (next?_of_nil ht).symm)
  · have hl := (ready_skipTrivia s).next?_of_cons hs
    have hm := (ready_skipTrivia t).next?_of_cons ht
    exact .inl (hl.trans ((congrArg (fun e => some e.1) hentry).trans hm.symm))
  · exact .inr ⟨((ready_skipTrivia s).next?_of_cons hs).trans (congrArg some hpipe),
      next?_of_nil ht⟩

/-- Where neither query ends before the other, the same kind is next. -/
theorem next?_eq (h : Twin C depth outer outer' s t) (htight : C.Tight) : s.next? = t.next? := by
  obtain hnext | ⟨hpipe, hend⟩ := h.next?
  · exact hnext
  · have hnil : t.skipTrivia.rest = [] := by
      obtain ⟨-, hnil⟩ | ⟨l, ls, -, hahead⟩ := rest_skipTrivia t
      · exact hnil
      · rw [State.next?, hahead] at hend
        cases hend
    have hrest := h.skipTrivia.rest
    rw [hnil] at hrest
    have hnil' := next?_of_nil (htight hrest (ready_skipTrivia s))
    rw [next?_skipTrivia, hpipe] at hnil'
    cases hnil'

variable {k : Kind}

/-- The same lexeme is directly ahead. -/
theorem both (h : Twin C depth outer outer' s t) (hs : (Sight.here k).Holds s)
    (ht : (Sight.here k).Holds t) :
    ∃ l m a b, s.rest = l :: a ∧ t.rest = m :: b ∧ l.isTrivia = false ∧ m.isTrivia = false ∧
      l.entry = m.entry ∧ C.unread (l.kind.depthAfter depth) a b := by
  obtain ⟨l, a, hl, -, hltrivia⟩ := hs.1.rest_of_next? hs.2
  obtain ⟨m, b, hm, -, hmtrivia⟩ := ht.1.rest_of_next? ht.2
  obtain ⟨hnil, -⟩ | ⟨l', m', a', b', hl', hm', hentry, hrest⟩ | ⟨-, -, -, hnil, -⟩ :=
    (h.ahead hs.1 ht.1).elim
  · exact absurd (hl.symm.trans hnil) (List.cons_ne_nil _ _)
  · obtain ⟨rfl, rfl⟩ := List.cons.inj (hl.symm.trans hl')
    obtain ⟨rfl, rfl⟩ := List.cons.inj (hm.symm.trans hm')
    exact ⟨l, m, a, b, hl, hm, hltrivia, hmtrivia, hentry, hrest⟩
  · exact absurd (hm.symm.trans hnil) (List.cons_ne_nil _ _)

/-- The lexeme ahead is read in both. -/
theorem bumpHere (h : Twin C 0 outer outer' s t) (hs : (Sight.here k).Holds s)
    (ht : (Sight.here k).Holds t) : Twin C 0 outer outer' s.bump t.bump := by
  obtain ⟨l, m, a, b, hl, hm, -, -, hentry, hrest⟩ := h.both hs ht
  exact (h.bump hl hm hentry hrest).outside

/-- The same kind comes after the lexeme ahead, unless one of the queries ends before a pipe. -/
theorem second? (h : Twin C depth outer outer' s t) (hs : (Sight.here k).Holds s)
    (ht : (Sight.here k).Holds t) :
    s.second? = t.second? ∨ s.second? = some .pipe ∧ t.second? = none := by
  obtain ⟨l, m, a, b, hl, hm, hltrivia, hmtrivia, hentry, hrest⟩ := h.both hs ht
  rw [← next?_bump_eq hl hltrivia, ← next?_bump_eq hm hmtrivia]
  exact (h.bump hl hm hentry hrest).next?

/-- The text of the lexeme ahead is the same. -/
theorem text (h : Twin C depth outer outer' s t) (hs : (Sight.here k).Holds s)
    (ht : (Sight.here k).Holds t) : (Parser.currentText s).1 = (Parser.currentText t).1 := by
  obtain ⟨l, m, a, b, hl, hm, -, -, hentry, -⟩ := h.both hs ht
  change s.skipTrivia.rest.head?.elim "" _ = t.skipTrivia.rest.head?.elim "" _
  rw [hs.1.skipTrivia, ht.1.skipTrivia, hl, hm]
  exact congrArg Prod.snd hentry

/-- Where there is something ahead, it is trivia in both or in neither. -/
theorem ready_iff (h : Twin C depth outer outer' s t) (hs : s.rest ≠ []) (ht : t.rest ≠ []) :
    s.Ready ↔ t.Ready := by
  rw [ready_iff_any hs, ready_iff_any ht, C.touching h.rest ht]

/-- Trivia directly ahead is read in both, and what is left of it passed over. -/
theorem bumpTrivia (h : Twin C depth outer outer' s t) (hs : ¬ s.Ready) (ht : ¬ t.Ready) :
    Twin C depth outer outer' s.bump.skipTrivia t.bump.skipTrivia := by
  obtain ⟨l, a, hl, hltrivia⟩ := rest_of_not_ready hs
  obtain ⟨m, b, hm, hmtrivia⟩ := rest_of_not_ready ht
  have hrest := h.rest
  rw [hl, hm] at hrest
  obtain ⟨hread, hheld⟩ := C.blindly hrest hltrivia hmtrivia
  refine ⟨h.built_bump hl hm hread, ?_, ?_, ?_⟩
  · rw [bump_of_cons hl, bump_of_cons hm]
    exact hheld
  · have hskip := C.skip hrest
    rw [List.dropWhile_cons_of_pos hltrivia, List.dropWhile_cons_of_pos hmtrivia] at hskip
    rw [bump_of_cons hl, bump_of_cons hm]
    exact hskip
  · change C.noted s.bump.notes t.bump.notes
    rw [notes_bump, notes_bump]
    exact h.notes

/-! ## Nodes -/

theorem openNode (h : Twin C depth outer outer' s t) :
    Twin C depth [] [] (Parser.opened s) (Parser.opened t) :=
  ⟨⟨[], [], rfl, rfl, rfl⟩, rfl, h.rest, h.notes⟩

/-- What was put into a node becomes one tree. -/
theorem closeNode {inner : Nat} {u v : State} (h : Twin C depth outer outer' s t) (shape : Shape)
    (hinside : Twin C inner [] [] u v) : Twin C inner outer outer'
      (u.closeNode shape s.drain.built) (v.closeNode shape t.drain.built) := by
  obtain ⟨new, new', hnew, hnew', hnews⟩ := h.drain.built
  obtain ⟨ts, us, hts, hus, hview⟩ := hinside.built
  refine ⟨⟨.node shape u.built.reverse :: new, .node shape v.built.reverse :: new', ?_, ?_, ?_⟩,
    hinside.held, hinside.rest, hinside.notes⟩
  · rw [List.cons_append, ← hnew]
    rfl
  · rw [List.cons_append, ← hnew']
    rfl
  · rw [List.append_nil] at hts hus
    rw [List.reverse_cons, List.reverse_cons, C.view_append, C.view_append, hnews, hts, hus,
      C.view_node shape hview]

/-- All that there is becomes one tree. -/
theorem asNode (h : Twin C depth [] [] s t) (shape : Shape) :
    Twin C depth [] [] (s.closeNode shape []) (t.closeNode shape []) := by
  obtain ⟨ts, us, hts, hus, hview⟩ := h.built
  refine ⟨⟨[.node shape s.built.reverse], [.node shape t.built.reverse], rfl, rfl, ?_⟩, h.held,
    h.rest, h.notes⟩
  rw [List.append_nil] at hts hus
  rw [List.reverse_singleton, List.reverse_singleton, hts, hus]
  exact C.view_node shape hview

/-- Only what is put in from now on is compared. -/
theorem since (h : Twin C depth outer outer' s t) : Twin C depth s.built t.built s t :=
  ⟨⟨[], [], rfl, rfl, rfl⟩, h.held, h.rest, h.notes⟩

/-- What was the same before and what has been put in since then. -/
theorem ofSince {inner : Nat} {u v : State} (h : Twin C depth outer outer' s t)
    (hsince : Twin C inner s.built t.built u v) : Twin C inner outer outer' u v := by
  obtain ⟨new, new', hnew, hnew', hnews⟩ := h.built
  obtain ⟨ts, us, hts, hus, hview⟩ := hsince.built
  refine ⟨⟨ts ++ new, us ++ new', ?_, ?_, ?_⟩, hsince.held, hsince.rest, hsince.notes⟩
  · rw [hts, hnew, List.append_assoc]
  · rw [hus, hnew', List.append_assoc]
  · rw [List.reverse_append, List.reverse_append, C.view_append, C.view_append, hnews, hview]

theorem built_cut {outer : List Tree} {s : State} {new : List Tree} (h : s.built = new ++ outer) :
    (Parser.cut outer.length s).built = new ∧
      s.built.drop (Parser.sinceMark outer.length s) = outer := by
  have hsince : Parser.sinceMark outer.length s = new.length := by
    rw [Parser.sinceMark, h, List.length_append, Nat.add_sub_cancel]
  constructor
  · change s.built.take _ = new
    rw [hsince, h, List.take_left]
  · rw [hsince, h, List.drop_left]

theorem cut (h : Twin C depth outer outer' s t) :
    Twin C depth [] [] (Parser.cut outer.length s) (Parser.cut outer'.length t) := by
  obtain ⟨new, new', hnew, hnew', hnews⟩ := h.built
  refine ⟨⟨new, new', ?_, ?_, hnews⟩, h.held, h.rest, h.notes⟩
  · rw [(built_cut hnew).1, List.append_nil]
  · rw [(built_cut hnew').1, List.append_nil]

/-- What was put in since the places that are compared becomes one tree. -/
theorem wrap {inner : Nat} {u v : State} (h : Twin C depth outer outer' s t) (shape : Shape)
    (hinside : Twin C inner [] [] u v) : Twin C inner outer outer'
      (u.closeNode shape (s.built.drop (Parser.sinceMark outer.length s)))
      (v.closeNode shape (t.built.drop (Parser.sinceMark outer'.length t))) := by
  obtain ⟨new, new', hnew, hnew', -⟩ := h.built
  obtain ⟨ts, us, hts, hus, hview⟩ := hinside.built
  rw [(built_cut hnew).2, (built_cut hnew').2]
  refine ⟨⟨[.node shape u.built.reverse], [.node shape v.built.reverse], rfl, rfl, ?_⟩,
    hinside.held, hinside.rest, hinside.notes⟩
  rw [List.append_nil] at hts hus
  rw [List.reverse_singleton, List.reverse_singleton, hts, hus]
  exact C.view_node shape hview

/-! ## Notes -/

/-- What is told of the lexemes ahead is the same. -/
theorem told (h : Twin C 0 outer outer' s t) (kind : DiagnosticKind) (detail : Option String) :
    Twin C 0 outer outer'
      (s.skipTrivia.withNotes (s.notes.toldAt kind s.skipTrivia.span detail))
      (t.skipTrivia.withNotes (t.notes.toldAt kind t.skipTrivia.span detail)) :=
  h.skipTrivia.withNotes (C.told h.notes h.skipTrivia.rest (ready_skipTrivia s) (ready_skipTrivia t)
    kind detail)

end Twin

end SplQuery
