import SplQuery.Proofs.Formed.Content
import SplQuery.Proofs.Silent.Takes

/-!
# What steps put under a node where nothing is noted

`Carries m I L sight p` is a triple: if `I` holds of what was put into the innermost node from its
first `m` trees on, then after the step `p`, if it notes nothing, `L` holds of that. All trees that
are put in are formed. `Forms` is the triple of a step of which it does not matter what stands
before it; a frame rule leads from it to the others.

* `Steady` — a step that does not unsay what is noted and is known to have read on.
* `Question` — a look at what is ahead.
* `Carries.bind`, `Carries.loop`, `Carries.wrapFrom` and the like — the ways of putting steps
  together.
* `Puts`, `PutsOne`, `PutsNode` — steps that put in nodes of a class.
-/

namespace SplQuery

open State

/-- The step does not unsay anything, and where it notes nothing it has read on. -/
abbrev Steady (sight : Sight) {α : Type} (p : Parser α) : Prop := Takes (fun _ _ _ => True) sight p

/-- The step notes something. -/
abbrev Noisy (sight : Sight) {α : Type} (p : Parser α) : Prop := Takes (fun _ _ _ => False) sight p

/-- The step reads trivia at the most, and puts nothing into the tree. -/
structure Question {α : Type} (p : Parser α) : Prop where
  glances : ∀ s, Glances s (p s).2
  built : ∀ s, (p s).2.built = s.built
  tidy : ∀ s, s.Tidy → (p s).2.Tidy

/-- `I` holds of what was put into the innermost node after the trees `base`. -/
structure State.Since (base : List Tree) (I : Content → Prop) (s : State) : Prop where
  tidy : s.Tidy
  built : ∃ new, s.built = new ++ base ∧ (∀ t ∈ new, t.Formed) ∧ I (Tree.content new.reverse)

/-- What `I` says of what was put into the innermost node from its first `m` trees on becomes `L`,
unless the step notes something. -/
structure Carries (m : Nat) (I : Content → Prop) {α : Type} (L : α → Content → Prop) (sight : Sight)
    (p : Parser α) : Prop where
  steady : Steady sight p
  carries : ∀ s base, sight.Holds s → s.Audible → base.length = m → s.Since base I →
    (p s).2.reports = s.reports → (p s).2.Since base (L (p s).1)

/-- What the step puts into the innermost node, whatever stands there already. -/
def Forms {α : Type} (M : α → Content → Prop) (sight : Sight) (p : Parser α) : Prop :=
  ∀ m, Carries m (· = .none) M sight p

/-- The step puts in nodes of a class, any number of them. -/
abbrev Puts (member : Shape → Bool) (sight : Sight) {α : Type} (p : Parser α) : Prop :=
  Forms (fun _ c => Shape.Only member c.parts) sight p

/-- The step puts in a node of a shape and no lexemes. -/
abbrev PutsNode (shape : Shape) (sight : Sight) {α : Type} (p : Parser α) : Prop :=
  Forms (fun _ c => c = .part shape) sight p

/-- The step puts in one node of a class. -/
abbrev PutsOne (member : Shape → Bool) (sight : Sight) {α : Type} (p : Parser α) : Prop :=
  Forms (fun _ c => Shape.One member c.parts) sight p

/-! ## States -/

namespace State

variable {base : List Tree} {I J : Content → Prop} {s t : State}

theorem Since.mono (h : s.Since base I) (hI : ∀ c, I c → J c) : s.Since base J := by
  obtain ⟨new, hnew, hformed, hc⟩ := h.built
  exact ⟨h.tidy, new, hnew, hformed, hI _ hc⟩

theorem since_built (hs : s.Tidy) : s.Since s.built (· = .none) := ⟨hs, [], rfl, nofun, rfl⟩

theorem since_opened (s : State) : (Parser.opened s).Since [] (· = .none) :=
  ⟨List.forall_mem_nil _, [], rfl, nofun, rfl⟩

theorem Since.of_built (h : s.Since base I) (ht : t.Tidy) (hbuilt : t.built = s.built) :
    t.Since base I := by
  obtain ⟨new, hnew, hformed, hc⟩ := h.built
  exact ⟨ht, new, hbuilt.trans hnew, hformed, hc⟩

/-- More is put in. -/
theorem Since.extend {M : Content → Prop} (h : s.Since base I) (ht : t.Since s.built M) :
    t.Since base fun e => ∃ c d, I c ∧ M d ∧ e = c ++ d := by
  obtain ⟨new, hnew, hformed, hc⟩ := h.built
  obtain ⟨new', hnew', hformed', hd⟩ := ht.built
  refine ⟨ht.tidy, new' ++ new, by rw [hnew', hnew, List.append_assoc],
    List.forall_mem_append.mpr ⟨hformed', hformed⟩, _, _, hc, hd, ?_⟩
  rw [List.reverse_append, Tree.content_append]

theorem tidy_skipTrivia (hs : s.Tidy) : s.skipTrivia.Tidy := (looks_skipTrivia s).adds.tidy hs

/-- Trivia that is put in does not count. -/
theorem Since.drain (h : s.Since base I) : s.drain.Since base I := by
  obtain ⟨new, hnew, hformed, hc⟩ := h.built
  refine ⟨List.forall_mem_nil _, (s.held.map leaf).reverse ++ new, ?_, ?_, ?_⟩
  · rw [List.append_assoc, ← hnew]
    rfl
  · refine List.forall_mem_append.mpr ⟨fun t ht => ?_, hformed⟩
    obtain ⟨l, -, rfl⟩ := List.mem_map.mp (List.mem_reverse.mp ht)
    exact Tree.formed_leaf l
  · rwa [List.reverse_append, List.reverse_reverse, Tree.content_append,
      Tree.content_trivia h.tidy, Content.append_none]

/-- A lexeme that is no trivia counts, others do not. -/
theorem Since.bump {l : Lexeme} {ls : List Lexeme} (h : s.Since base I) (hrest : s.rest = l :: ls) :
    s.bump.Since base fun e => ∃ c, I c ∧
      e = c ++ if l.isTrivia = true then .none else .word l.kind := by
  obtain ⟨new, hnew, hformed, hc⟩ := h.drain.built
  rw [bump_of_cons hrest]
  refine ⟨List.forall_mem_nil _, leaf l :: new, ?_, ?_, _, hc, ?_⟩
  · change leaf l :: s.drain.built = _
    rw [hnew]
    rfl
  · exact List.forall_mem_cons.mpr ⟨Tree.formed_leaf l, hformed⟩
  · rw [List.reverse_cons, Tree.content_append]
    split
    · next hl =>
      have hnone : Tree.content ([l].map leaf) = .none := Tree.content_trivia (by simpa using hl)
      exact congrArg _ hnone
    · next hl => exact congrArg _ (Tree.content_leaf (Bool.eq_false_iff.mpr hl))

/-- A node is put in if it holds what its shape asks for. -/
theorem Since.closeNode {outer : List Tree} {M : Content → Prop} {shape : Shape}
    (h : s.Since [] M) (hshape : ∀ c, M c → shape.Holds c) (houter : t.Since base I)
    (hbuilt : t.built = outer) :
    (s.closeNode shape outer).Since base fun e => ∃ c, I c ∧ e = c ++ .part shape := by
  obtain ⟨inner, hinner, hinnerFormed, hd⟩ := h.built
  obtain ⟨new, hnew, hformed, hc⟩ := houter.built
  have hs : s.built = inner := hinner.trans (List.append_nil inner)
  refine ⟨h.tidy, .node shape s.built.reverse :: new, ?_, ?_, _, hc, ?_⟩
  · rw [← hbuilt, State.closeNode, hnew]
    rfl
  · refine List.forall_mem_cons.mpr ⟨Tree.formed_node (fun u hu => ?_) ?_, hformed⟩
    · exact hinnerFormed u (hs ▸ List.mem_reverse.mp hu)
    · rw [hs]
      exact hshape _ hd
  · rw [List.reverse_cons, Tree.content_append, Tree.content_node]

end State

/-! ## Questions -/

namespace Question

open SplQuery.Parser

variable {α β : Type} {p : Parser α} {q r : Parser Bool}

theorem pure (a : α) : Question (Pure.pure a : Parser α) :=
  ⟨fun s => .of_took rfl (.refl s), fun _ => rfl, fun _ hs => hs⟩

theorem bind {f : α → Parser β} (hp : Question p) (hf : ∀ a, Question (f a)) :
    Question (p >>= f) :=
  ⟨fun s => (hp.glances s).trans ((hf _).glances _), fun s => ((hf _).built _).trans (hp.built s),
    fun s hs => (hf _).tidy _ (hp.tidy s hs)⟩

theorem ite {c : Prop} [Decidable c] {p q : Parser α} (hp : Question p) (hq : Question q) :
    Question (if c then p else q) := by
  split
  · exact hp
  · exact hq

theorem current : Question Parser.current := by
  refine ⟨glances_current, fun s => ?_, fun s hs => ?_⟩ <;> rw [current_eq]
  · exact look_built _
  · intro l hl
    rw [look_held] at hl
    exact tidy_skipTrivia hs l hl

theorem ofSkipTrivia (h : ∀ s, (p s).2 = s.skipTrivia) : Question p := by
  refine ⟨fun s => ?_, fun s => ?_, fun s hs => ?_⟩ <;> rw [h]
  · exact glances_skipTrivia s
  · rfl
  · exact tidy_skipTrivia hs

theorem ahead : Question Parser.ahead := ofSkipTrivia fun _ => rfl

theorem currentText : Question Parser.currentText := ofSkipTrivia fun _ => rfl

theorem glued : Question Parser.glued :=
  ⟨fun s => .of_took rfl (.refl s), fun _ => rfl, fun _ hs => hs⟩

theorem adjacent : Question Parser.adjacent := by
  refine ⟨fun s => ?_, fun s => ?_, fun s hs => ?_⟩ <;> rw [adjacent_eq]
  · exact glances_look s
  · exact look_built s
  · intro l hl
    rw [look_held] at hl
    exact hs l hl

theorem isAt (kind : Kind) : Question (Parser.isAt kind) := current.bind fun _ => pure _

theorem isIn (member : Kind → Bool) : Question (Parser.isIn member) := current.bind fun _ => pure _

theorem isAhead (kind : Kind) : Question (Parser.isAhead kind) := ahead.bind fun _ => pure _

theorem atStageEnd : Question Parser.atStageEnd := current.bind fun _ => pure _

theorem require (member : Kind → Bool) : Question (Parser.require member) := by
  refine (isIn member).bind fun b => ite (pure _) ?_
  exact ⟨fun s => .of_took rfl ⟨rfl, rfl, rfl, rfl⟩, fun _ => rfl, fun _ hs => hs⟩

theorem wordBefore (kind : Kind) : Question (do
    if ← Parser.isIn Kind.isWord then Parser.isAhead kind else return false) :=
  (isIn _).bind fun _ => ite (isAhead _) (pure _)

theorem atOption : Question Grammar.atOption := wordBefore _

theorem atFieldCall : Question Grammar.atFieldCall := wordBefore _

theorem atSearchEnd (stop : Kind → Bool) : Question (Grammar.atSearchEnd stop) :=
  atStageEnd.bind fun _ => ite (pure _) ((isAt _).bind fun _ => ite (pure _) (isIn _))

theorem orM (hq : Question q) (hr : Question r) : Question (q <||> r) := by
  rw [← bind_pure (q <||> r), Grammar.orM_bind]
  exact hq.bind fun _ => ite (pure _) (hr.bind fun _ => pure _)

theorem andM (hq : Question q) (hr : Question r) : Question (q <&&> r) := by
  rw [← bind_pure (q <&&> r), Grammar.andM_bind]
  exact hq.bind fun _ => ite (hr.bind fun _ => pure _) (pure _)

theorem notM (hq : Question q) : Question (notM q) := hq.bind fun _ => pure _

end Question

/-- What is known of a lexeme directly ahead stays known when one looks at it. -/
theorem Sight.Holds.glances {sight : Sight} {s t : State} (h : sight.Holds s) (ht : Glances s t) :
    sight.inside.Holds t := by
  obtain ⟨read, hread, htook⟩ := ht.took
  have hrest (hs : s.Ready) : t.rest = s.rest := by
    cases read with
    | nil => exact htook.rest.symm
    | cons l ls =>
      have hl : l.isTrivia = false := hs l (by rw [htook.rest]; rfl)
      rw [Lexeme.solid_cons hl] at hread
      cases hread
  cases sight with
  | here k => exact h.inside (hrest h.1)
  | pair k l => exact h.inside (hrest h.1)
  | _ => exact trivial

end SplQuery
