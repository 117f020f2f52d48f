import SplQuery.Proofs.Made.Alike
import SplQuery.Proofs.Reading.Adds

/-!
# What is seen

A `Sight` says what is known of the lexemes to come in a state. It is kept by steps that do not
read, and reading a lexeme moves it on.

* `Sight.Holds` — what a sight says of a state.
* `Sight.Holds.bump` — what is known after a lexeme has been read.
* `Parser.current_eq`, `Parser.ahead_eq` — what questions answer, and where they end.
-/

namespace SplQuery

namespace State

/-- A lexeme has just been read, which is no trivia, and nothing after it. -/
def JustRead (s : State) : Prop :=
  s.held = [] ∧ ∃ l ts, s.built = leaf l :: ts ∧ l.isTrivia = false

theorem Ready.rest_of_next? {s : State} {k : Kind} (hs : s.Ready) (h : s.next? = some k) :
    ∃ l ls, s.rest = l :: ls ∧ l.kind = k ∧ l.isTrivia = false := by
  rcases hrest : s.rest with _ | ⟨l, ls⟩
  · exact absurd hrest (rest_ne_nil_of_next? h)
  · have hl : l.isTrivia = false := hs l (by rw [hrest]; rfl)
    refine ⟨l, ls, rfl, ?_, hl⟩
    rw [next?, State.ahead, hrest, List.filter_cons_of_pos (by rw [hl]; rfl)] at h
    exact Option.some.inj h

theorem next?_of_nil {s : State} (h : s.rest = []) : s.next? = none := by
  rw [next?, State.ahead, h]
  rfl

theorem Ready.next?_of_cons {s : State} {l : Lexeme} {ls : List Lexeme} (hs : s.Ready)
    (h : s.rest = l :: ls) : s.next? = some l.kind := by
  have hl : l.isTrivia = false := hs l (by rw [h]; rfl)
  rw [next?, State.ahead, h, List.filter_cons_of_pos (by rw [hl]; rfl)]
  rfl

theorem rest_of_not_ready {s : State} (h : ¬ s.Ready) :
    ∃ l ls, s.rest = l :: ls ∧ l.isTrivia = true := by
  cases hrest : s.rest with
  | nil =>
    refine absurd (fun l hl => ?_) h
    rw [hrest] at hl
    cases hl
  | cons l ls =>
    refine ⟨l, ls, rfl, ?_⟩
    by_contra hl
    refine h fun m hm => ?_
    rw [hrest] at hm
    cases hm
    exact Bool.eq_false_iff.mpr hl

theorem ready_iff_any {s : State} (h : s.rest ≠ []) :
    s.Ready ↔ s.rest.head?.any (!·.isTrivia) = true := by
  obtain ⟨l, ls, hrest⟩ := List.exists_cons_of_ne_nil h
  rw [Ready, hrest]
  simp

theorem fault_withFault (s : State) (f : Fault) : (s.withFault f).fault ≠ none :=
  fun h => Option.some_ne_none f (Option.or_eq_none_iff.mp h).2

/-- Where the next lexeme is directly ahead there is no trivia to pass over. -/
theorem Ready.skipTrivia {s : State} (hs : s.Ready) : s.skipTrivia = s := by
  have hnone :
      s.rest.takeWhile Lexeme.isTrivia = [] ∧ s.rest.dropWhile Lexeme.isTrivia = s.rest := by
    rcases hrest : s.rest with _ | ⟨l, ls⟩
    · exact ⟨rfl, rfl⟩
    · have hl : ¬ l.isTrivia = true := by
        rw [hs l (by rw [hrest]; rfl)]
        exact Bool.false_ne_true
      exact ⟨List.takeWhile_cons_of_neg hl, List.dropWhile_cons_of_neg hl⟩
  rw [State.skipTrivia, hnone.1, hnone.2, List.append_nil]

theorem next?_of_rest {s t : State} (h : t.rest = s.rest) : t.next? = s.next? := by
  rw [next?, next?, State.ahead, State.ahead, h]

theorem second?_of_rest {s t : State} (h : t.rest = s.rest) : t.second? = s.second? := by
  rw [second?, second?, State.ahead, State.ahead, h]

theorem Ready.of_rest {s t : State} (hs : s.Ready) (h : t.rest = s.rest) : t.Ready := by
  rw [Ready, h]
  exact hs

theorem next?_skipTrivia (s : State) : s.skipTrivia.next? = s.next? := by
  rw [next?, next?, ahead_skipTrivia]

theorem second?_skipTrivia (s : State) : s.skipTrivia.second? = s.second? := by
  rw [second?, second?, ahead_skipTrivia]

/-- After a lexeme has been read, the one that was second comes next. -/
theorem next?_bump_eq {s : State} {l : Lexeme} {ls : List Lexeme} (h : s.rest = l :: ls)
    (hl : l.isTrivia = false) : s.bump.next? = s.second? := by
  rw [bump_of_cons h, next?, second?, State.ahead, State.ahead, h,
    List.filter_cons_of_pos (by rw [hl]; rfl), List.getElem?_cons_succ, ← List.head?_eq_getElem?]

end State

namespace Sight

open State

/-- What a sight says of a state. -/
def Holds (s : State) : Sight → Prop
  | .nothing => True
  | .fresh => s.JustRead
  | .next k => s.JustRead ∧ s.next? = some k
  | .here k => s.Ready ∧ s.next? = some k
  | .pair k l => s.Ready ∧ s.next? = some k ∧ s.second? = some l

namespace Holds

variable {s t : State} {sight : Sight} {k : Kind}

/-- The lexeme directly ahead. -/
theorem ready (h : sight.Holds s) (hsight : sight.first? = some k) :
    s.Ready ∧ s.next? = some k := by
  cases sight with
  | here l =>
    cases hsight
    exact h
  | pair l m =>
    cases hsight
    exact ⟨h.1, h.2.1⟩
  | _ => cases hsight

theorem past_of_rest (h : sight.past.Holds s) (hrest : t.rest = s.rest) : sight.past.Holds t := by
  cases sight with
  | nothing => exact trivial
  | fresh => exact trivial
  | next k => exact ⟨h.1.of_rest hrest, (next?_of_rest hrest).trans h.2⟩
  | here k => exact ⟨h.1.of_rest hrest, (next?_of_rest hrest).trans h.2⟩
  | pair k l =>
    exact ⟨h.1.of_rest hrest, (next?_of_rest hrest).trans h.2.1,
      (second?_of_rest hrest).trans h.2.2⟩

/-- Trivia may be passed over. -/
theorem past (h : sight.Holds s) : sight.past.Holds s.skipTrivia := by
  cases sight with
  | nothing => exact trivial
  | fresh => exact trivial
  | next k => exact ⟨ready_skipTrivia s, (next?_skipTrivia s).trans h.2⟩
  | here k => exact ⟨ready_skipTrivia s, (next?_skipTrivia s).trans h.2⟩
  | pair k l =>
    exact ⟨ready_skipTrivia s, (next?_skipTrivia s).trans h.2.1, (second?_skipTrivia s).trans h.2.2⟩

theorem inside (h : sight.Holds s) (hrest : t.rest = s.rest) : sight.inside.Holds t := by
  cases sight with
  | nothing => exact trivial
  | fresh => exact trivial
  | next k => exact trivial
  | here k => exact ⟨h.1.of_rest hrest, (next?_of_rest hrest).trans h.2⟩
  | pair k l =>
    exact ⟨h.1.of_rest hrest, (next?_of_rest hrest).trans h.2.1,
      (second?_of_rest hrest).trans h.2.2⟩

/-- Where a lexeme is known to be directly ahead, what is known is of the lexemes to come only. -/
theorem of_rest (h : sight.Holds s) (hsight : sight.first? = some k) (hrest : t.rest = s.rest) :
    sight.Holds t := by
  have hinside : sight.inside = sight := by
    cases sight <;> first | rfl | cases hsight
  exact hinside ▸ h.inside hrest

theorem skipTrivia (h : sight.Holds s) (hsight : sight.first? = some k) :
    sight.Holds s.skipTrivia := by
  rw [(h.ready hsight).1.skipTrivia]
  exact h

/-- What is known does not depend on what is noted. -/
theorem congr (h : sight.Holds s) (hrest : t.rest = s.rest) (hheld : t.held = s.held)
    (hbuilt : t.built = s.built) : sight.Holds t := by
  have hread (hs : s.JustRead) : t.JustRead := by
    rw [JustRead, hheld, hbuilt]
    exact hs
  cases sight with
  | nothing => exact trivial
  | fresh => exact hread h
  | next k => exact ⟨hread h.1, (next?_of_rest hrest).trans h.2⟩
  | here k => exact h.of_rest rfl hrest
  | pair k l => exact h.of_rest rfl hrest

/-- What a look past trivia finds is directly ahead. -/
theorem here_of_next? (h : s.next? = some k) : (Sight.here k).Holds s.skipTrivia :=
  ⟨ready_skipTrivia s, (next?_skipTrivia s).trans h⟩

/-- What is directly ahead is the next lexeme if it is no trivia. -/
theorem here_of_rest {l : Lexeme} {ls : List Lexeme} (h : s.rest = l :: ls)
    (hl : l.isTrivia = false) : (Sight.here l.kind).Holds s := by
  refine ⟨fun m hm => ?_, ?_⟩
  · rw [h] at hm
    cases hm
    exact hl
  · rw [next?, State.ahead, h, List.filter_cons_of_pos (by rw [hl]; rfl)]
    rfl

/-- What is known after a lexeme has been read. -/
theorem bump (h : sight.Holds s) (hsight : sight.first? = some k) :
    sight.afterBump.Holds s.bump := by
  obtain ⟨l, ls, hrest, -, hl⟩ := (h.ready hsight).1.rest_of_next? (h.ready hsight).2
  have hread : s.bump.JustRead := by
    rw [bump_of_cons hrest]
    exact ⟨rfl, l, s.drain.built, rfl, hl⟩
  cases sight with
  | here l => exact hread
  | pair k m => exact ⟨hread, (next?_bump_eq hrest hl).trans h.2.2⟩
  | _ => cases hsight

end Holds

end Sight

namespace Parser

open State

variable {α β : Type} {s : State}

theorem current_eq (s : State) : current s = (s.next?, s.skipTrivia.look) :=
  Prod.ext (current_ends s).2 rfl

/-- Trivia may be passed over before looking. -/
theorem current_skipTrivia (s : State) : current s.skipTrivia = current s := by
  rw [current_eq, current_eq, next?_skipTrivia, (ready_skipTrivia s).skipTrivia]

theorem ahead_eq (s : State) : ahead s = (s.second?, s.skipTrivia) :=
  Prod.ext (ahead_ends s).2 rfl

theorem adjacent_eq (s : State) : adjacent s = (s.rest.head?.map (·.kind), s.look) :=
  Prod.ext (adjacent_ends s).2.2 rfl

/-- What is required is there. -/
theorem require_eq {k : Kind} {member : Kind → Bool} (hnext : s.next? = some k)
    (hmember : member k = true) : require member s = ((), s.skipTrivia.look) := by
  have hif : require member s = (if (s.next?.any member) = true then
      (Pure.pure () : Parser Unit) else modify (·.withFault .misplaced)) s.skipTrivia.look := by
    change (if ((current s).1.any member) = true then (Pure.pure () : Parser Unit)
      else modify (·.withFault .misplaced)) (current s).2 = _
    rw [current_eq]
  rw [hif, hnext, Option.any_some, if_pos hmember]
  rfl

/-- Whether a lexeme is directly ahead, and of which kind. -/
theorem touching_eq {f : Option Kind → Parser β} {p : Parser β} (s : State) :
    (glued >>= fun b => if b = true then adjacent >>= f else p) s =
      if s.rest.head?.any (!·.isTrivia) = true then f (s.rest.head?.map (·.kind)) s.look
      else p s := by
  change (if s.rest.head?.any (!·.isTrivia) = true then adjacent >>= f else p) s = _
  split
  · change f (adjacent s).1 (adjacent s).2 = _
    rw [adjacent_eq]
  · rfl

/-! ## What questions show

What goes on after a question does so with what the question has shown. A pipe is treated like the
end, so that nothing is known before either of them. -/

section Sees

variable {γ : Type} {P : Sight → γ → Prop} {f : Option Kind → γ} {sight : Sight} {k : Kind}

theorem current_sees (hf : f none = f (some .pipe)) (hnone : P .nothing (f none))
    (hsome : ∀ k, k ≠ .pipe → P (.here k) (f (some k))) (s : State) :
    ∃ after : Sight, after.Holds (current s).2 ∧ P after (f (current s).1) := by
  rw [current_eq]
  cases hnext : s.next? with
  | none => exact ⟨.nothing, trivial, hnone⟩
  | some k =>
    by_cases hk : k = .pipe
    · subst hk
      exact ⟨.nothing, trivial, hf ▸ hnone⟩
    · exact ⟨.here k, (Sight.Holds.here_of_next? hnext).of_rest rfl (look_rest _), hsome k hk⟩

/-- What is known of the next lexeme is its kind. -/
theorem current_shows (hsight : sight.past.first? = some k) (h : P sight.past (f (some k)))
    (hs : sight.Holds s) :
    ∃ after : Sight, after.Holds (current s).2 ∧ P after (f (current s).1) := by
  rw [current_eq, ← next?_skipTrivia, (hs.past.ready hsight).2]
  exact ⟨sight.past, hs.past.of_rest hsight (look_rest _), h⟩

theorem ahead_sees (hf : f none = f (some .pipe)) (hnone : P (.here k) (f none))
    (hsome : ∀ l, l ≠ .pipe → P (.pair k l) (f (some l))) (hs : (Sight.here k).Holds s) :
    ∃ after : Sight, after.Holds (ahead s).2 ∧ P after (f (ahead s).1) := by
  rw [ahead_eq, hs.1.skipTrivia]
  cases hsecond : s.second? with
  | none => exact ⟨.here k, hs, hnone⟩
  | some l =>
    by_cases hl : l = .pipe
    · subst hl
      exact ⟨.here k, hs, hf ▸ hnone⟩
    · exact ⟨.pair k l, ⟨hs.1, hs.2, hsecond⟩, hsome l hl⟩

/-- What is done with a lexeme directly ahead, which is nothing where there is none. -/
theorem touching_sees {P : Sight → Parser β → Prop} {f : Option Kind → Parser β} {a : β}
    (hf : f (some .pipe) = Pure.pure a) (hnone : P .nothing (Pure.pure a))
    (hsome : ∀ k, k ≠ .pipe → P (.here k) (f (some k))) (s : State) :
    ∃ (after : Sight) (p : Parser β) (t : State), (t = s ∨ t = s.look) ∧ after.Holds t ∧ P after p ∧
      (glued >>= fun b => if b = true then adjacent >>= f else Pure.pure a) s = p t := by
  rw [touching_eq]
  split
  case isFalse => exact ⟨.nothing, Pure.pure a, s, .inl rfl, trivial, hnone, rfl⟩
  case isTrue hglued =>
    cases hrest : s.rest with
    | nil =>
      rw [hrest] at hglued
      cases hglued
    | cons l ls =>
      have hl : l.isTrivia = false := by simpa [hrest] using hglued
      rw [List.head?_cons, Option.map_some]
      by_cases hk : l.kind = .pipe
      · rw [hk, hf]
        exact ⟨.nothing, Pure.pure a, s.look, .inr rfl, trivial, hnone, rfl⟩
      · exact ⟨.here l.kind, f (some l.kind), s.look, .inr rfl,
          (Sight.Holds.here_of_rest hrest hl).of_rest rfl (look_rest _), hsome _ hk, rfl⟩

end Sees

end Parser

end SplQuery
