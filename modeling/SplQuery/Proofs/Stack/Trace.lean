import SplQuery.Proofs.Steps.Recovery

/-!
# What a parse does with its stacks

A parse goes down levels and up again, opens nodes and closes them, and keeps the delimiters and the
commands that are open. What it does with these, one thing after another, is its trace: a list of
actions on four stacks, of which only the heights of two matter. Each way of putting steps together
says what the trace is of what is put together (`Traced`).

If the actions are nested, each end with the beginning of its own, then the stacks are in the end
what they were in the beginning, whatever was on them.

* `Action`, `Stacks`, `Stacks.run` — actions, and what they do.
* `Action.Nested` — actions that are nested.
* `Action.Nested.balanced` — nested actions restore the stacks, and close what they have opened.
* `Parser.Traced` — the trace of a program.
* `Parser.Traced.run` — doing what the trace says leads to the stacks of the state that is reached.
-/

namespace SplQuery

/-! ## Actions -/

/-- What a parse may do with its stacks. -/
inductive Action where
  | openNode
  | closeNode
  | push (opener : Opener)
  | pop
  | enter (word : Option CommandWord)
  | leave
  | down
  | up

/-- The stacks of a parse: how many levels down it is, how many nodes are open, which delimiters and
which commands, the innermost first. -/
@[ext]
structure Stacks where
  depth : Nat
  nodes : Nat
  openers : List Opener
  commands : List (Option CommandWord)

namespace Stacks

/-- What an action does, with so many levels at the most. Nothing is taken from an empty stack. -/
def apply (limit : Nat) (st : Stacks) : Action → Option Stacks
  | .openNode => some { st with nodes := st.nodes + 1 }
  | .closeNode => if st.nodes = 0 then none else some { st with nodes := st.nodes - 1 }
  | .push o => some { st with openers := o :: st.openers }
  | .pop => if st.openers = [] then none else some { st with openers := st.openers.tail }
  | .enter w => some { st with commands := w :: st.commands }
  | .leave => if st.commands = [] then none else some { st with commands := st.commands.tail }
  | .down => if st.depth < limit then some { st with depth := st.depth + 1 } else none
  | .up => if st.depth = 0 then none else some { st with depth := st.depth - 1 }

/-- What actions do, one after another. -/
def run (limit : Nat) (w : List Action) (st : Stacks) : Option Stacks := w.foldlM (apply limit) st

variable {limit : Nat} {st st' : Stacks} {a : Action} {v w : List Action}

theorem run_nil : run limit [] st = some st := rfl

theorem run_cons : run limit (a :: w) st = (apply limit st a).bind (run limit w) :=
  List.foldlM_cons

theorem run_append : run limit (v ++ w) st = (run limit v st).bind (run limit w) :=
  List.foldlM_append

theorem run_append_eq_some :
    run limit (v ++ w) st = some st' ↔
      ∃ mid, run limit v st = some mid ∧ run limit w mid = some st' := by
  rw [run_append, Option.bind_eq_some_iff]

theorem run_cons_eq_some :
    run limit (a :: w) st = some st' ↔
      ∃ mid, apply limit st a = some mid ∧ run limit w mid = some st' := by
  rw [run_cons, Option.bind_eq_some_iff]

end Stacks

namespace Action

open Stacks

variable {limit m n : Nat} {a b : Action} {u v w : List Action} {st st' mid : Stacks}

/-- An action and the one that ends what it has begun. With `m` levels left outside there are `n`
inside. -/
inductive Encloses : Nat → Nat → Action → Action → Prop where
  | node (n : Nat) : Encloses n n openNode closeNode
  | opener (n : Nat) (o : Opener) : Encloses n n (push o) pop
  | command (n : Nat) (w : Option CommandWord) : Encloses n n (enter w) leave
  | level (n : Nat) : Encloses (n + 1) n down up

/-- Actions of which each ends what the last one has begun that is not yet ended, and which go down
so many levels at the most. -/
inductive Nested : Nat → List Action → Prop where
  | nil {n : Nat} : Nested n []
  | pair {m n : Nat} {a b : Action} {v w : List Action} (hab : Encloses m n a b) (hv : Nested n v)
    (hw : Nested m w) : Nested m (a :: (v ++ b :: w))

/-- What an action has begun can be ended, and that leads back. -/
theorem Encloses.apply (h : Encloses m n a b) (hst : st.depth + m ≤ limit) :
    ∃ mid, Stacks.apply limit st a = some mid ∧ mid.depth + n ≤ limit := by
  cases h with
  | level n =>
    have hlt : st.depth < limit := by omega
    exact ⟨_, if_pos hlt, by simp only; omega⟩
  | _ => exact ⟨_, rfl, hst⟩

theorem Encloses.apply_apply (h : Encloses m n a b) (ha : Stacks.apply limit st a = some mid) :
    Stacks.apply limit mid b = some st := by
  cases h with
  | level n =>
    obtain ⟨-, hmid⟩ := Option.ite_none_right_eq_some.mp ha
    cases hmid
    rfl
  | _ =>
    cases ha
    rfl

/-- Done with these stacks the actions restore them, and where a delimiter is taken it is one that
was put there on the way, with nothing but what was there before below it. -/
structure Balanced (limit : Nat) (w : List Action) (st : Stacks) : Prop where
  restores : Stacks.run limit w st = some st
  own : ∀ u v, w = u ++ pop :: v → ∃ x y o before, u = x ++ push o :: y ∧
    Stacks.run limit x st = some before ∧
    Stacks.run limit u st = some { before with openers := o :: before.openers }

namespace Nested

theorem single (h : Encloses m n a b) (hv : Nested n v) : Nested m (a :: (v ++ [b])) :=
  .pair h hv .nil

theorem append (hv : Nested n v) (hw : Nested n w) : Nested n (v ++ w) := by
  induction hv with
  | nil => exact hw
  | pair hab hv _ _ ih =>
    rw [List.cons_append, List.append_assoc, List.cons_append]
    exact .pair hab hv (ih hw)

/-- Where nested actions can be done they lead back. -/
theorem run_eq (h : Nested n w) (hrun : run limit w st = some st') : st' = st := by
  induction h generalizing st st' with
  | nil => exact (Option.some.inj hrun).symm
  | pair hab _ _ ihv ihw =>
    obtain ⟨mid, ha, hinside⟩ := run_cons_eq_some.mp hrun
    obtain ⟨mid', hv, hafter⟩ := run_append_eq_some.mp hinside
    obtain ⟨st₁, hb, hw⟩ := run_cons_eq_some.mp hafter
    rw [ihv hv, hab.apply_apply ha] at hb
    cases hb
    exact ihw hw

/-- **Nested actions restore the stacks**, if there are enough levels left. -/
theorem run (h : Nested n w) (hst : st.depth + n ≤ limit) : Stacks.run limit w st = some st := by
  induction h generalizing st with
  | nil => exact run_nil
  | pair hab _ _ ihv ihw =>
    obtain ⟨mid, ha, hmid⟩ := hab.apply hst
    rw [run_cons, ha, Option.bind_some, run_append, ihv hmid, Option.bind_some, run_cons,
      hab.apply_apply ha, Option.bind_some, ihw hst]

/-- Where a delimiter is taken from the stack, one was put there before, and what was done in
between is nested. -/
theorem push_before_pop (h : Nested n w) (hw : w = u ++ pop :: v) :
    ∃ x y o m, u = x ++ push o :: y ∧ Nested m y := by
  induction h generalizing u v with
  | nil => exact absurd hw.symm (List.append_ne_nil_of_right_ne_nil u (List.cons_ne_nil _ _))
  | @pair m n a b w₁ w₂ hab h₁ _ ih₁ ih₂ =>
    obtain _ | ⟨a', u⟩ := u
    · -- no pair begins with a delimiter that is taken
      cases hw
      cases hab
    obtain ⟨rfl, hrest⟩ := List.cons.inj hw
    obtain ⟨r, rfl, hr⟩ | ⟨r, rfl, hr⟩ := List.append_eq_append_iff.mp hrest
    · obtain _ | ⟨b', r⟩ := r
      · cases hr
        cases hab with
        | opener n o => exact ⟨[], w₁, o, _, by rw [List.append_nil]; rfl, h₁⟩
      · obtain ⟨rfl, htail⟩ := List.cons.inj hr
        obtain ⟨x, y, o, m, rfl, hy⟩ := ih₂ htail
        exact ⟨a :: (w₁ ++ b :: x), y, o, m, by simp, hy⟩
    · obtain _ | ⟨p, r⟩ := r
      · cases hr
        cases hab with
        | opener n o => exact ⟨[], u, o, _, rfl, by rwa [List.append_nil] at h₁⟩
      · obtain ⟨rfl, -⟩ := List.cons.inj hr
        obtain ⟨x, y, o, m, rfl, hy⟩ := ih₁ rfl
        exact ⟨a :: x, y, o, m, rfl, hy⟩

/-- **Nested actions are balanced**, if there are enough levels left. -/
theorem balanced (h : Nested n w) (hst : st.depth + n ≤ limit) : Balanced limit w st := by
  refine ⟨h.run hst, fun u v hw => ?_⟩
  obtain ⟨x, y, o, m, rfl, hy⟩ := h.push_before_pop hw
  have hrun := h.run hst
  rw [hw, List.append_assoc] at hrun
  obtain ⟨before, hx, hrest⟩ := run_append_eq_some.mp hrun
  obtain ⟨mid, hpush, hafter⟩ := run_cons_eq_some.mp hrest
  cases hpush
  obtain ⟨mid, hmid, -⟩ := run_append_eq_some.mp hafter
  obtain rfl := hy.run_eq hmid
  refine ⟨x, y, o, before, rfl, hx, run_append_eq_some.mpr ⟨before, hx, ?_⟩⟩
  exact run_cons_eq_some.mpr ⟨_, rfl, hmid⟩

end Nested

end Action

/-! ## Traces -/

namespace Parser

open SplQuery.Action

/-- The basic steps that leave the stacks alone: nothing is opened or closed by them. Going to
another level is none of them, although all that it does to the state is to let the parse look ahead
as often again. -/
inductive Stackless : (State → State) → Prop where
  | skipTrivia : Stackless State.skipTrivia
  | look : Stackless State.look
  | drain : Stackless State.drain
  | bump : Stackless State.bump
  | withFault (fault : Fault) : Stackless (·.withFault fault)
  | noteAt (place : Nat) : Stackless fun s => { s with lastReport := some place }
  | addReport (kind : DiagnosticKind) (span : Span) (message : String) (related : List Related) :
      Stackless (·.addReport kind span message related)
  | comp {f g : State → State} (hg : Stackless g) (hf : Stackless f) : Stackless fun s => g (f s)

namespace Stackless

variable {f : State → State}

theorem openers (h : Stackless f) (s : State) : (f s).openers = s.openers := by
  induction h generalizing s with
  | skipTrivia | drain | withFault | noteAt | addReport => rfl
  | look => exact (State.stays_look s).passes.leads.openers
  | bump => unfold State.bump; split <;> rfl
  | comp _ _ ihg ihf => exact (ihg _).trans (ihf s)

theorem commands (h : Stackless f) (s : State) : (f s).commands = s.commands := by
  induction h generalizing s with
  | skipTrivia | drain | withFault | noteAt | addReport => rfl
  | look => exact (State.stays_look s).passes.leads.commands
  | bump => unfold State.bump; split <;> rfl
  | comp _ _ ihg ihf => exact (ihg _).trans (ihf s)

theorem rest (h : Stackless f) (s : State) : (f s).rest <:+ s.rest := by
  induction h generalizing s with
  | drain | withFault | noteAt | addReport => exact List.suffix_refl _
  | skipTrivia => exact List.dropWhile_suffix _
  | look => exact (State.stays_look s).passes.leads.rest
  | bump =>
    unfold State.bump
    split
    · exact List.suffix_refl _
    · next l ls hrest => exact hrest ▸ List.suffix_cons l ls
  | comp _ _ ihg ihf => exact (ihg _).trans (ihf s)

end Stackless

/-- What a program does with the stacks when it starts in a state. -/
inductive Traced : {α : Type} → Parser α → State → List Action → Prop where
  | pure {α : Type} (a : α) (s : State) : Traced (pure a) s []
  | get (s : State) : Traced get s []
  | modify {f : State → State} (h : Stackless f) (s : State) : Traced (modify f) s []
  | bind {α β : Type} {p : Parser α} {f : α → Parser β} {s : State} {v w : List Action}
      (hp : Traced p s v) (hf : Traced (f (p s).1) (p s).2 w) : Traced (p >>= f) s (v ++ w)
  | node {α : Type} {body : Parser α} {s : State} {w : List Action} (shape : Shape)
      (h : Traced body (opened s) w) :
      Traced (node shape body) s (openNode :: (w ++ [closeNode]))
  | wrapFrom {body : Parser Unit} {s : State} {w : List Action} (mark : Nat) (shape : Shape)
      (h : Traced body (cut mark s) w) :
      Traced (wrapFrom mark shape body) s (openNode :: (w ++ [closeNode]))
  | pushOpener (kind : Kind) (s : State) :
      Traced (pushOpener kind) s [push ⟨kind, s.skipTrivia.span⟩]
  | close (closer : Kind) (kind : DiagnosticKind) (s : State) : Traced (close closer kind) s [pop]
  | inCommand {body : Parser Unit} {s : State} {w : List Action} (word : Option CommandWord)
      (h : Traced body (entered word s) w) :
      Traced (inCommand word body) s (enter word :: (w ++ [leave]))
  | descend {inner : Inner} {body : Inner → Parser Unit} {s : State} {w : List Action}
      (stopAtPipe : Bool) (h : Traced (body inner) s.refresh w) :
      Traced (descend (some inner) stopAtPipe body) s (down :: (w ++ [up]))

end Parser

namespace Stacks

/-- The delimiters and the commands are those of a state. -/
def Mirrors (st : Stacks) (s : State) : Prop :=
  st.openers = s.openers ∧ st.commands = s.commands

/-- Neither nodes nor levels bear on the delimiters and the commands. -/
theorem Mirrors.apply {limit : Nat} {st st' : Stacks} {s : State} {a : Action}
    (ha : a matches .openNode | .closeNode | .down | .up) (h : st.Mirrors s)
    (hst : Stacks.apply limit st a = some st') : st'.Mirrors s := by
  cases a with
  | openNode =>
    cases hst
    exact h
  | closeNode | up =>
    obtain ⟨-, hst⟩ := Option.ite_none_left_eq_some.mp hst
    cases hst
    exact h
  | down =>
    obtain ⟨-, hst⟩ := Option.ite_none_right_eq_some.mp hst
    cases hst
    exact h
  | push | pop | enter | leave => cases ha

end Stacks

namespace Parser.Traced

open SplQuery.Action Stacks

variable {α : Type} {p : Parser α} {limit : Nat} {s : State} {w : List Action} {st st' : Stacks}

/-- A program reads on. -/
theorem rest (h : Traced p s w) : (p s).2.rest <:+ s.rest := by
  induction h with
  | pure | get => exact List.suffix_refl _
  | modify h s => exact h.rest s
  | bind _ _ ih ihf => exact ihf.trans ih
  | node _ _ ih | wrapFrom _ _ _ ih | inCommand _ _ ih | descend _ _ ih => exact ih
  | pushOpener => exact List.dropWhile_suffix _
  | close closer kind s => exact (close_ends closer kind s).rest

/-- What is done between two actions. -/
theorem between {a b : Action} (hrun : Stacks.run limit (a :: (w ++ [b])) st = some st') :
    ∃ inner outer, apply limit st a = some inner ∧ Stacks.run limit w inner = some outer ∧
      apply limit outer b = some st' := by
  obtain ⟨inner, ha, hinside⟩ := run_cons_eq_some.mp hrun
  obtain ⟨outer, hw, hafter⟩ := run_append_eq_some.mp hinside
  obtain ⟨mid, hb, hnil⟩ := run_cons_eq_some.mp hafter
  cases hnil
  exact ⟨inner, outer, ha, hw, hb⟩

/-- **A trace tells what becomes of the stacks**: doing what it says with the delimiters and the
commands of a state leads to those of the state in which the program ends. -/
theorem run (h : Traced p s w) (hst : st.Mirrors s) (hrun : Stacks.run limit w st = some st') :
    st'.Mirrors (p s).2 := by
  induction h generalizing st st' with
  | pure | get =>
    cases hrun
    exact hst
  | modify h s =>
    cases hrun
    exact ⟨hst.1.trans (h.openers s).symm, hst.2.trans (h.commands s).symm⟩
  | bind _ _ ih ihf =>
    obtain ⟨mid, hfirst, hnext⟩ := run_append_eq_some.mp hrun
    exact ihf (ih hst hfirst) hnext
  | @node _ _ s _ _ _ ih =>
    obtain ⟨inner, outer, hopen, hinside, hclose⟩ := between hrun
    have hinner : inner.Mirrors (opened s) := hst.apply rfl hopen
    exact (ih hinner hinside).apply rfl hclose
  | @wrapFrom _ s _ mark _ _ ih =>
    obtain ⟨inner, outer, hopen, hinside, hclose⟩ := between hrun
    have hinner : inner.Mirrors (cut mark s) := hst.apply rfl hopen
    exact (ih hinner hinside).apply rfl hclose
  | pushOpener kind =>
    cases hrun
    exact ⟨congrArg (_ :: ·) hst.1, hst.2⟩
  | close closer kind s =>
    obtain ⟨mid, hpop, hnil⟩ := run_cons_eq_some.mp hrun
    obtain ⟨-, hpop⟩ := Option.ite_none_left_eq_some.mp hpop
    cases hnil
    cases hpop
    have hclose := close_ends closer kind s
    exact ⟨(congrArg List.tail hst.1).trans hclose.openers.symm,
      hst.2.trans hclose.commands.symm⟩
  | @inCommand _ s _ word _ ih =>
    obtain ⟨inner, outer, henter, hinside, hleave⟩ := between hrun
    obtain ⟨-, hleave⟩ := Option.ite_none_left_eq_some.mp hleave
    cases henter
    cases hleave
    have hinner : Mirrors { st with commands := word :: st.commands } (entered word s) :=
      ⟨hst.1, congrArg (word :: ·) hst.2⟩
    have houter := ih hinner hinside
    exact ⟨houter.1, congrArg List.tail houter.2⟩
  | @descend _ _ s _ _ _ ih =>
    obtain ⟨inner, outer, hdown, hinside, hup⟩ := between hrun
    have hinner : inner.Mirrors s.refresh := hst.apply rfl hdown
    exact (ih hinner hinside).apply rfl hup

/-- Where what is done is nested, the delimiters and the commands are left as they were. -/
theorem mirrors {n : Nat} (h : Traced p s w) (hw : Nested n w) :
    (p s).2.openers = s.openers ∧ (p s).2.commands = s.commands := by
  let st : Stacks := ⟨0, 0, s.openers, s.commands⟩
  have hrun : Stacks.run n w st = some st := hw.run (Nat.le_of_eq (Nat.zero_add n))
  have hst : st.Mirrors s := ⟨rfl, rfl⟩
  obtain ⟨hopeners, hcommands⟩ := h.run hst hrun
  exact ⟨hopeners.symm, hcommands.symm⟩

end Parser.Traced

end SplQuery
