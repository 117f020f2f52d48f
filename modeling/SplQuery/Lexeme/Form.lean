/-!
# Written forms

A `Form` is a regular expression over characters: it describes how the lexemes of one kind may be
written. Matching takes one character at a time: `f.next c` is what remains to be written after
`c`, and a form that has become `never` can no longer be completed.

* `Form.Admits` — the texts that a form describes, as an inductive relation.
* `admits_next` — the texts that `f.next c` describes are those that complete `c` to one of `f`.
* `acceptsNow_iff` — `f.acceptsNow` holds exactly when the empty text completes `f`.
-/

namespace SplQuery

/-- A regular expression over characters. -/
inductive Form where
  /-- no text at all -/
  | never
  /-- the empty text -/
  | done
  /-- one character of a class -/
  | one (member : Char → Bool)
  /-- one form and then another -/
  | andThen (first second : Form)
  /-- either of two forms -/
  | either (left right : Form)
  /-- any number of repetitions -/
  | many (body : Form)

namespace Form

/-- The texts that a form describes. -/
inductive Admits : Form → List Char → Prop where
  | done : Admits .done []
  | one {member : Char → Bool} {c : Char} (h : member c = true) : Admits (.one member) [c]
  | andThen {f g : Form} {s t : List Char} (hs : Admits f s) (ht : Admits g t) :
      Admits (.andThen f g) (s ++ t)
  | left {f g : Form} {s : List Char} (h : Admits f s) : Admits (.either f g) s
  | right {f g : Form} {s : List Char} (h : Admits g s) : Admits (.either f g) s
  | stop {f : Form} : Admits (.many f) []
  | more {f : Form} {s t : List Char} (hs : Admits f s) (ht : Admits (.many f) t) :
      Admits (.many f) (s ++ t)

/-! ## Building forms -/

/-- One form and then another, a `never` or `done` in front simplified away. -/
def thenOf : Form → Form → Form
  | .never, _ => .never
  | .done, g => g
  | f, g => .andThen f g

/-- Either of two forms, `never` simplified away. -/
def orOf : Form → Form → Form
  | .never, g => g
  | f, .never => f
  | f, g => .either f g

/-- One given character. -/
def char (c : Char) : Form := .one (· == c)

/-- A given text. -/
def text (s : String) : Form := s.toList.foldr (fun c f => thenOf (char c) f) .done

/-- One text of a list. -/
def oneOf (texts : List String) : Form := texts.foldr (fun s f => orOf (text s) f) .never

/-- At least one repetition. -/
def some (f : Form) : Form := thenOf f (.many f)

/-- The form, or nothing. -/
def optional (f : Form) : Form := orOf f .done

/-! ## Matching -/

/-- Whether the empty text completes the form. -/
def acceptsNow : Form → Bool
  | .never => false
  | .done => true
  | .one _ => false
  | .andThen f g => f.acceptsNow && g.acceptsNow
  | .either f g => f.acceptsNow || g.acceptsNow
  | .many _ => true

/-- What remains to be written after a character. -/
def next : Form → Char → Form
  | .never, _ => .never
  | .done, _ => .never
  | .one member, c => if member c then .done else .never
  | .andThen f g, c =>
    if f.acceptsNow then orOf (thenOf (f.next c) g) (g.next c) else thenOf (f.next c) g
  | .either f g, c => orOf (f.next c) (g.next c)
  | .many f, c => thenOf (f.next c) (.many f)

/-- Whether no text completes the form any more. -/
def isDead : Form → Bool
  | .never => true
  | _ => false

/-! ## What matching means -/

theorem not_admits_never {s : List Char} : ¬Admits .never s := fun h => nomatch h

theorem admits_done_iff {s : List Char} : Admits .done s ↔ s = [] :=
  ⟨fun h => by cases h; rfl, fun h => h ▸ .done⟩

theorem admits_one_iff {member : Char → Bool} {s : List Char} :
    Admits (.one member) s ↔ ∃ c, member c = true ∧ s = [c] :=
  ⟨fun h => by cases h with | one h => exact ⟨_, h, rfl⟩, fun ⟨_, h, e⟩ => e ▸ .one h⟩

theorem admits_andThen_iff {f g : Form} {s : List Char} :
    Admits (.andThen f g) s ↔ ∃ t u, Admits f t ∧ Admits g u ∧ s = t ++ u :=
  ⟨fun h => by cases h with | andThen hs ht => exact ⟨_, _, hs, ht, rfl⟩,
    fun ⟨_, _, hs, ht, e⟩ => e ▸ .andThen hs ht⟩

theorem admits_either_iff {f g : Form} {s : List Char} :
    Admits (.either f g) s ↔ Admits f s ∨ Admits g s :=
  ⟨fun h => by cases h with | left h => exact .inl h | right h => exact .inr h,
    fun h => h.elim .left .right⟩

theorem admits_thenOf_iff {f g : Form} {s : List Char} :
    Admits (thenOf f g) s ↔ Admits (.andThen f g) s := by
  unfold thenOf
  split
  · simp [admits_andThen_iff, not_admits_never]
  · simp [admits_andThen_iff, admits_done_iff]
  · rfl

theorem admits_orOf_iff {f g : Form} {s : List Char} :
    Admits (orOf f g) s ↔ Admits f s ∨ Admits g s := by
  unfold orOf
  split
  · simp [not_admits_never]
  · simp [not_admits_never]
  · exact admits_either_iff

/-- The empty text completes a form exactly when `acceptsNow` says so. -/
theorem acceptsNow_iff (f : Form) : f.acceptsNow = true ↔ Admits f [] := by
  induction f with
  | never => simp [acceptsNow, not_admits_never]
  | done => simp [acceptsNow, admits_done_iff]
  | one member => simp [acceptsNow, admits_one_iff]
  | andThen f g ihf ihg =>
    simp only [acceptsNow, Bool.and_eq_true, ihf, ihg, admits_andThen_iff]
    constructor
    · rintro ⟨hf, hg⟩
      exact ⟨[], [], hf, hg, rfl⟩
    · rintro ⟨t, u, hf, hg, e⟩
      obtain ⟨rfl, rfl⟩ := List.append_eq_nil_iff.1 e.symm
      exact ⟨hf, hg⟩
  | either f g ihf ihg => simp [acceptsNow, ihf, ihg, admits_either_iff]
  | many f _ => simp [acceptsNow, Admits.stop]

/-- A nonempty text of a repetition begins with a nonempty text of its body. -/
theorem admits_many_cons {f : Form} {c : Char} {s : List Char} (h : Admits (.many f) (c :: s)) :
    ∃ t u, Admits f (c :: t) ∧ Admits (.many f) u ∧ s = t ++ u := by
  generalize hg : Form.many f = g at h
  generalize hr : c :: s = r at h
  induction h with
  | done | one | andThen | left | right => nomatch hg
  | stop => nomatch hr
  | @more f' t u hs ht _ ih =>
    obtain rfl : f = f' := by injection hg
    cases t with
    | nil => exact ih rfl hr
    | cons d t =>
      obtain ⟨rfl, rfl⟩ : c = d ∧ s = t ++ u := by simpa using hr
      exact ⟨t, u, hs, ht, rfl⟩

/-- The texts of `f.next c` are those that complete `c` to a text of `f`. -/
theorem admits_next {f : Form} {c : Char} {s : List Char} :
    Admits (f.next c) s ↔ Admits f (c :: s) := by
  induction f generalizing s with
  | never => simp [next, not_admits_never]
  | done => simp [next, not_admits_never, admits_done_iff]
  | one member =>
    by_cases h : member c = true
    · simp only [next, h, if_true, admits_done_iff, admits_one_iff]
      constructor
      · rintro rfl
        exact ⟨c, h, rfl⟩
      · rintro ⟨d, _, e⟩
        simpa using (List.cons.inj e).2
    · simp only [next, h, admits_one_iff]
      constructor
      · exact fun h => nomatch h
      · rintro ⟨d, hd, e⟩
        exact absurd ((List.cons.inj e).1 ▸ hd) h
  | andThen f g ihf ihg =>
    have key : Admits (.andThen (f.next c) g) s ↔
        ∃ t u, Admits f (c :: t) ∧ Admits g u ∧ s = t ++ u := by
      simp only [admits_andThen_iff, ihf]
    have split : Admits (.andThen f g) (c :: s) ↔
        (∃ t u, Admits f (c :: t) ∧ Admits g u ∧ s = t ++ u) ∨
          (Admits f [] ∧ Admits g (c :: s)) := by
      rw [admits_andThen_iff]
      constructor
      · rintro ⟨t, u, hf, hg, e⟩
        cases t with
        | nil => exact .inr ⟨hf, by rw [e]; exact hg⟩
        | cons d t =>
          obtain ⟨rfl, rfl⟩ : c = d ∧ s = t ++ u := by simpa using e
          exact .inl ⟨t, u, hf, hg, rfl⟩
      · rintro (⟨t, u, hf, hg, rfl⟩ | ⟨hf, hg⟩)
        · exact ⟨c :: t, u, hf, hg, rfl⟩
        · exact ⟨[], c :: s, hf, hg, rfl⟩
    rw [split, ← key]
    by_cases h : f.acceptsNow = true
    · simp [next, h, admits_orOf_iff, admits_thenOf_iff, ihg, (acceptsNow_iff f).1 h]
    · have hn : ¬Admits f [] := fun a => h ((acceptsNow_iff f).2 a)
      simp [next, h, admits_thenOf_iff, hn]
  | either f g ihf ihg => simp [next, admits_orOf_iff, admits_either_iff, ihf, ihg]
  | many f ih =>
    simp only [next, admits_thenOf_iff, admits_andThen_iff, ih]
    constructor
    · rintro ⟨t, u, hf, hm, rfl⟩
      exact .more hf hm
    · exact admits_many_cons

end Form

end SplQuery
