import SplQuery.Proofs.Lexeme.Partition
import SplQuery.Proofs.Steps.Ends

/-!
# What a step of a parse may do

Three relations between the state in which a step starts and the one in which it ends.

* `Stays n s t` — nothing but trivia has been read, and at most `n` looks ahead were spent.
* `Passes n s t` — something may have been read; at most `n` looks were spent on the way, or since
  the last lexeme was read.
* `Reads n s t` — a lexeme has been read for certain, and at most `n` looks were spent since then.

All three imply `Leads`: no lexeme is lost or moved, what is still to be read is an end of what was
to be read, and the stacks of delimiters and commands are as before. From a `Sound` state with more
than `n` looks left they lead to a `Sound` state. The relations compose by adding up the looks, so
that a production needs no more than a bound on its own.
-/

namespace SplQuery

namespace Span

/-- The start is not behind the end. -/
def Ordered (s : Span) : Prop := s.start ≤ s.stop

end Span

namespace Diagnostic

/-- Every stretch that the diagnostic names starts at or before its end. -/
def Ordered (d : Diagnostic) : Prop := d.span.Ordered ∧ ∀ r ∈ d.related, r.span.Ordered

end Diagnostic

namespace Lexeme

/-- What a lexeme is as a leaf of a tree. -/
def entry (l : Lexeme) : Kind × String := (l.kind, l.text)

end Lexeme

namespace Tree

theorem leavesOfAll_append (ts us : List Tree) :
    leavesOfAll (ts ++ us) = leavesOfAll ts ++ leavesOfAll us := by
  induction ts with
  | nil => rfl
  | cons t ts ih => simp [leavesOfAll, ih]

theorem leavesOfAll_map_leaf (ls : List Lexeme) :
    leavesOfAll (ls.map State.leaf) = ls.map Lexeme.entry := by
  induction ls with
  | nil => rfl
  | cons l ls ih =>
    rw [List.map_cons, leavesOfAll, ih, List.map_cons]
    rfl

end Tree

namespace State

/-! ## Views of a state -/

/-- The lexemes still to be read, trivia left aside. -/
def ahead (s : State) : List Lexeme := s.rest.filter (!·.isTrivia)

/-- The kind of the next lexeme past trivia. -/
def next? (s : State) : Option Kind := s.ahead.head?.map (·.kind)

/-- The kind of the lexeme after the next one. -/
def second? (s : State) : Option Kind := s.ahead[1]?.map (·.kind)

/-- Whether the stage ends here. -/
def atEnd (s : State) : Bool := s.next?.all (· matches .pipe | .rbracket)

/-- Whether an option starts here. -/
def atOption (s : State) : Bool := s.next?.any Kind.isWord && s.second? == some .equals

/-- All lexemes in order: those in the tree, those held back, those still to be read. -/
def leaves (s : State) : List (Kind × String) :=
  Tree.leavesOfAll s.built.reverse ++ (s.held ++ s.rest).map Lexeme.entry

theorem rest_ne_nil_of_next? {s : State} {k : Kind} (h : s.next? = some k) : s.rest ≠ [] := by
  intro hnil
  rw [next?, ahead, hnil] at h
  cases h

theorem span_ordered (s : State) : s.span.Ordered := by
  unfold span
  cases s.rest.head? with
  | none => exact Nat.le_refl _
  | some l => exact l.start_le_stop

/-- Where the lexemes to come adjoin, the next one is at the place from which they do. -/
theorem span_start {s : State} {place : Nat} (h : Lexeme.Adjoin place s.rest s.stop) :
    s.span.start = place := by
  unfold span
  cases hrest : s.rest with
  | nil =>
    rw [hrest] at h
    exact h.symm
  | cons l ls =>
    rw [hrest] at h
    exact h.1

/-! ## Sound states -/

/-- Nothing has gone wrong in the parse itself: there is no fault, the patience has never run out,
and every stretch of text that is noted starts at or before its end. -/
structure Sound (s : State) : Prop where
  fault : s.fault = none
  patience_le : s.patience ≤ fullPatience
  least_pos : 0 < s.leastPatience
  /-- the lexemes to come stand one after another up to the end of the text -/
  placed : Lexeme.Adjoin s.span.start s.rest s.stop
  /-- the open delimiters stand before what is to come -/
  openers : ∀ o ∈ s.openers, o.span.Ordered ∧ o.span.start ≤ s.span.start
  reports : ∀ d ∈ s.reports, d.Ordered

/-- Reading on keeps the lexemes to come in their places. -/
theorem Sound.placed_of_suffix {s t : State} (hs : s.Sound) (hrest : t.rest <:+ s.rest)
    (hstop : t.stop = s.stop) :
    Lexeme.Adjoin t.span.start t.rest t.stop ∧ s.span.start ≤ t.span.start := by
  obtain ⟨read, hread⟩ := hrest
  have hplaced := hs.placed
  rw [← hread, Lexeme.adjoin_append_iff] at hplaced
  obtain ⟨place, hbefore, hafter⟩ := hplaced
  rw [← hstop] at hafter
  rw [span_start hafter]
  exact ⟨hafter, hbefore.start_le_stop⟩

/-- A state that has only read on, with patience left, is sound as well. -/
theorem Sound.of_suffix {s t : State} (hs : s.Sound) (hfault : t.fault = s.fault)
    (hpatience : t.patience ≤ fullPatience) (hleast : 0 < t.leastPatience)
    (hrest : t.rest <:+ s.rest) (hstop : t.stop = s.stop) (hopeners : t.openers ⊆ s.openers)
    (hreports : ∀ d ∈ t.reports, d.Ordered) : t.Sound := by
  obtain ⟨hplaced, hle⟩ := hs.placed_of_suffix hrest hstop
  refine ⟨hfault.trans hs.fault, hpatience, hleast, hplaced, ?_, hreports⟩
  intro o ho
  obtain ⟨hordered, hstart⟩ := hs.openers o (hopeners ho)
  exact ⟨hordered, Nat.le_trans hstart hle⟩

/-! ## The relations -/

/-- What every production keeps, on all inputs. -/
structure Leads (s t : State) : Prop where
  /-- no lexeme is lost, put in twice or moved -/
  leaves : t.leaves = s.leaves
  /-- what is to be read is an end of what was to be read -/
  rest : t.rest <:+ s.rest
  stop : t.stop = s.stop
  openers : t.openers = s.openers
  commands : t.commands = s.commands

theorem Leads.refl (s : State) : Leads s s := ⟨rfl, List.suffix_refl _, rfl, rfl, rfl⟩

theorem Leads.trans {s t u : State} (h : Leads s t) (h' : Leads t u) : Leads s u :=
  ⟨h'.leaves.trans h.leaves, h'.rest.trans h.rest, h'.stop.trans h.stop,
    h'.openers.trans h.openers, h'.commands.trans h.commands⟩

/-- From `s` to `t` at most `n` looks ahead were spent since a lexeme was read, or in all. -/
structure Passes (n : Nat) (s t : State) : Prop where
  leads : Leads s t
  sound : s.Sound → n < s.patience → t.Sound ∧ s.patience ≤ t.patience + n

/-- As `Passes`, and nothing but trivia has been read. -/
structure Stays (n : Nat) (s t : State) : Prop where
  passes : Passes n s t
  ahead : t.ahead = s.ahead

/-- From `s` to `t` a lexeme was read, and at most `n` looks ahead were spent since. -/
structure Reads (n : Nat) (s t : State) : Prop where
  leads : Leads s t
  shorter : t.rest.length < s.rest.length
  sound : s.Sound → n < s.patience → t.Sound ∧ fullPatience ≤ t.patience + n

section Compose

variable {m n : Nat} {s t u : State}

theorem Passes.refl (s : State) : Passes 0 s s :=
  ⟨Leads.refl s, fun hs _ => ⟨hs, Nat.le_refl _⟩⟩

theorem Passes.le (h : Passes m s t) (hmn : m ≤ n) : Passes n s t := by
  refine ⟨h.leads, fun hs hn => ?_⟩
  obtain ⟨ht, hp⟩ := h.sound hs (by omega)
  exact ⟨ht, by omega⟩

theorem Passes.trans (h : Passes m s t) (h' : Passes n t u) : Passes (m + n) s u := by
  refine ⟨h.leads.trans h'.leads, fun hs hmn => ?_⟩
  obtain ⟨ht, hp⟩ := h.sound hs (by omega)
  obtain ⟨hu, hp'⟩ := h'.sound ht (by omega)
  exact ⟨hu, by omega⟩

theorem Passes.length_le (h : Passes n s t) : t.rest.length ≤ s.rest.length :=
  h.leads.rest.length_le

theorem Stays.refl (s : State) : Stays 0 s s := ⟨Passes.refl s, rfl⟩

theorem Stays.le (h : Stays m s t) (hmn : m ≤ n) : Stays n s t := ⟨h.passes.le hmn, h.ahead⟩

theorem Stays.trans (h : Stays m s t) (h' : Stays n t u) : Stays (m + n) s u :=
  ⟨h.passes.trans h'.passes, h'.ahead.trans h.ahead⟩

theorem Stays.next? (h : Stays n s t) : t.next? = s.next? := by
  rw [State.next?, State.next?, h.ahead]

theorem Stays.second? (h : Stays n s t) : t.second? = s.second? := by
  rw [State.second?, State.second?, h.ahead]

theorem Stays.atEnd (h : Stays n s t) : t.atEnd = s.atEnd := by
  rw [State.atEnd, State.atEnd, h.next?]

theorem Stays.atOption (h : Stays n s t) : t.atOption = s.atOption := by
  rw [State.atOption, State.atOption, h.next?, h.second?]

theorem Reads.le (h : Reads m s t) (hmn : m ≤ n) : Reads n s t := by
  refine ⟨h.leads, h.shorter, fun hs hn => ?_⟩
  obtain ⟨ht, hp⟩ := h.sound hs (by omega)
  exact ⟨ht, by omega⟩

/-- A lexeme read refills the patience. -/
theorem Reads.passes (h : Reads n s t) : Passes n s t := by
  refine ⟨h.leads, fun hs hn => ?_⟩
  obtain ⟨ht, hp⟩ := h.sound hs hn
  have := hs.patience_le
  exact ⟨ht, by omega⟩

/-- The looks after the last lexeme add up. -/
theorem Reads.trans (h : Reads m s t) (h' : Passes n t u) : Reads (m + n) s u := by
  refine ⟨h.leads.trans h'.leads, Nat.lt_of_le_of_lt h'.length_le h.shorter, fun hs hp => ?_⟩
  have hfull := hs.patience_le
  obtain ⟨ht, hpt⟩ := h.sound hs (by omega)
  obtain ⟨hu, hpu⟩ := h'.sound ht (by omega)
  exact ⟨hu, by omega⟩

/-- The looks before the last lexeme matter only for getting there. -/
theorem Passes.reads (h : Passes m s t) (h' : Reads n t u) : Reads (m + n) s u := by
  refine ⟨h.leads.trans h'.leads, Nat.lt_of_lt_of_le h'.shorter h.length_le, fun hs hp => ?_⟩
  obtain ⟨ht, hpt⟩ := h.sound hs (by omega)
  obtain ⟨hu, hpu⟩ := h'.sound ht (by omega)
  exact ⟨hu, by omega⟩

/-- Of two stretches that both read, only the looks since the last lexeme count. -/
theorem Reads.again (h : Reads m s t) (h' : Reads n t u) (hmn : m + n < fullPatience) :
    Reads (max m n) s u := by
  refine ⟨h.leads.trans h'.leads, Nat.lt_trans h'.shorter h.shorter, fun hs hp => ?_⟩
  obtain ⟨ht, hpt⟩ := h.sound hs (by omega)
  obtain ⟨hu, hpu⟩ := h'.sound ht (by omega)
  exact ⟨hu, by omega⟩

end Compose

end State

end SplQuery
