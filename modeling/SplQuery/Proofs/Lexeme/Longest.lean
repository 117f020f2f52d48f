import SplQuery.Lexeme.Scan

/-!
# The longest match

The scan keeps the rules that may still be completed and the last match that it saw. What it finds
in this way is said here without its state: the first piece of a text is a stretch `w` of kind `k`
when `k` is the kind that the rules give to `w` and they give none to any longer stretch.

* `Rule.kindOf?` — the kind that a list of rules gives to a text.
* `Scan.longest_append` — the scan stops at the longest stretch that has a kind.
* `Scan.pieces_append` — such a stretch is the first piece.
-/

namespace SplQuery

namespace Form

/-- Whether a text is one that the form describes. -/
def accepts (f : Form) (s : List Char) : Bool := (s.foldl next f).acceptsNow

theorem accepts_cons (f : Form) (c : Char) (s : List Char) :
    f.accepts (c :: s) = (f.next c).accepts s := rfl

theorem accepts_iff {f : Form} {s : List Char} : f.accepts s = true ↔ Admits f s := by
  induction s generalizing f with
  | nil => exact acceptsNow_iff f
  | cons c s ih => rw [accepts_cons, ih, admits_next]

/-- Whether a form describes a text is found by reading the text. -/
instance (f : Form) (s : List Char) : Decidable (Admits f s) :=
  decidable_of_iff (f.accepts s = true) accepts_iff

theorem accepts_never (s : List Char) : accepts .never s = false := by
  rw [Bool.eq_false_iff, ne_eq, accepts_iff]
  exact not_admits_never

/-- What is dead accepts nothing. -/
theorem not_isDead_of_accepts {f : Form} {s : List Char} (h : f.accepts s = true) :
    f.isDead = false := by
  cases f with
  | never =>
    rw [accepts_never] at h
    cases h
  | done | one | andThen | either | many => rfl

end Form

namespace Rule

/-- The kind that rules give to a text: that of the first one that describes it. -/
def kindOf? (rules : List Rule) (s : List Char) : Option Kind :=
  (rules.find? (·.form.accepts s)).map (·.kind)

theorem kindOf?_eq_none_iff {rules : List Rule} {s : List Char} :
    kindOf? rules s = none ↔ ∀ r ∈ rules, ¬Form.Admits r.form s := by
  simp only [kindOf?, Option.map_eq_none_iff, List.find?_eq_none, Form.accepts_iff]

/-- What has a kind is described by a rule that gives that kind. -/
theorem exists_of_kindOf? {rules : List Rule} {s : List Char} {k : Kind}
    (h : kindOf? rules s = some k) : ∃ r ∈ rules.filter (·.kind == k), Form.Admits r.form s := by
  obtain ⟨r, hfind, hkind⟩ := Option.map_eq_some_iff.mp h
  have haccepts := List.find?_some hfind
  exact ⟨r, List.mem_filter.mpr ⟨List.mem_of_find?_eq_some hfind, beq_iff_eq.mpr hkind⟩,
    Form.accepts_iff.mp haccepts⟩

/-- Rules that come after one that describes a text do not matter, nor do those before that do not
describe it. -/
theorem kindOf?_append {rules later : List Rule} {s : List Char} :
    kindOf? (rules ++ later) s = (kindOf? rules s).or (kindOf? later s) := by
  rw [kindOf?, List.find?_append]
  unfold kindOf?
  cases rules.find? (·.form.accepts s) <;> rfl

theorem kindOf?_cons {r : Rule} {rules : List Rule} {s : List Char} (h : Form.Admits r.form s) :
    kindOf? (r :: rules) s = some r.kind := by
  rw [kindOf?, List.find?_cons, Form.accepts_iff.mpr h, Option.map_some]

theorem kindOf?_cons_of_not {r : Rule} {rules : List Rule} {s : List Char}
    (h : ¬Form.Admits r.form s) : kindOf? (r :: rules) s = kindOf? rules s := by
  rw [← Form.accepts_iff, Bool.not_eq_true] at h
  rw [kindOf?, List.find?_cons, h, kindOf?]

end Rule

namespace Scan

open Rule

/-! ## Going on by a character -/

/-- The rules that are left after a character give to what follows the kind that all of them give
to the whole. -/
theorem kindOf?_advance (live : List Rule) (c : Char) (s : List Char) :
    kindOf? (advance live c) s = kindOf? live (c :: s) := by
  have hdead : (fun r : Rule => decide ((!r.form.isDead) = true ∧ r.form.accepts s = true)) =
      fun r => r.form.accepts s := by
    funext r
    rcases h : r.form.accepts s with _ | _
    · simp
    · simp [Form.not_isDead_of_accepts h]
  rw [kindOf?, advance, List.find?_filter, hdead, List.find?_map, Option.map_map]
  rfl

/-- Where no rule is left, no text that goes on like this has a kind. -/
theorem advance_ne_nil {live : List Rule} {c : Char} {s : List Char} {k : Kind}
    (h : kindOf? live (c :: s) = some k) : advance live c ≠ [] := by
  intro hnil
  rw [← kindOf?_advance, hnil] at h
  cases h

theorem complete?_eq_kindOf? (live : List Rule) : complete? live = kindOf? live [] := rfl

/-- One character of the scan. -/
theorem longest_cons {live : List Rule} {c : Char} {cs : List Char} (best : Option (Nat × Kind))
    (count : Nat) (h : advance live c ≠ []) :
    longest live best count (c :: cs) =
      longest (advance live c) (((kindOf? live [c]).map (count + 1, ·)).or best) (count + 1)
        cs := by
  rw [← kindOf?_advance, ← complete?_eq_kindOf?, longest]
  obtain ⟨r, rs, hrs⟩ := List.exists_cons_of_ne_nil h
  rw [hrs]

theorem longest_of_advance_eq_nil {live : List Rule} {c : Char} {cs : List Char}
    (best : Option (Nat × Kind)) (count : Nat) (h : advance live c = []) :
    longest live best count (c :: cs) = longest.answer best count := by
  rw [longest, h]

/-! ## The longest stretch -/

/-- No beginning of a text but the empty one has a kind. -/
def Barren (live : List Rule) (s : List Char) : Prop :=
  ∀ t u, t ≠ [] → s = t ++ u → kindOf? live t = none

theorem Barren.advance {live : List Rule} {c : Char} {s : List Char}
    (h : Barren live (c :: s)) : kindOf? live [c] = none ∧ Barren (advance live c) s := by
  refine ⟨h [c] s (List.cons_ne_nil c []) rfl, fun t u _ hs => ?_⟩
  rw [kindOf?_advance]
  exact h (c :: t) u (List.cons_ne_nil c t) (by rw [hs, List.cons_append])

/-- A match stands when nothing longer comes. -/
theorem longest_of_barren {live : List Rule} {s : List Char} (h : Barren live s) (length : Nat)
    (k : Kind) (count : Nat) : longest live (some (length, k)) count s = (some k, length) := by
  induction s generalizing live count with
  | nil => rfl
  | cons c cs ih =>
    by_cases hlive : advance live c = []
    · rw [longest_of_advance_eq_nil _ _ hlive]
      rfl
    · obtain ⟨hone, hrest⟩ := h.advance
      rw [longest_cons _ _ hlive, hone, Option.map_none, Option.none_or]
      exact ih hrest _

/-- The scan stops behind the longest stretch that has a kind, whatever shorter ones have one. -/
theorem longest_append {live : List Rule} {c : Char} {w s : List Char} {k : Kind}
    (hk : kindOf? live (c :: w) = some k)
    (hbarren : ∀ t u, t ≠ [] → s = t ++ u → kindOf? live (c :: w ++ t) = none)
    (best : Option (Nat × Kind)) (count : Nat) :
    longest live best count (c :: w ++ s) = (some k, count + 1 + w.length) := by
  induction w generalizing live c best count with
  | nil =>
    have hrest : Barren (advance live c) s := by
      intro t u ht hs
      rw [kindOf?_advance]
      exact hbarren t u ht hs
    rw [List.cons_append, longest_cons _ _ (advance_ne_nil hk), hk, Option.map_some, Option.some_or]
    exact longest_of_barren hrest _ _ _
  | cons d w ih =>
    rw [List.cons_append, longest_cons _ _ (advance_ne_nil hk)]
    rw [← kindOf?_advance] at hk
    rw [ih hk, List.length_cons, Nat.add_assoc (count + 1), Nat.add_comm 1]
    intro t u ht hs
    rw [kindOf?_advance]
    exact hbarren t u ht hs

/-- A stretch that has a kind, while nothing longer has one, is the first piece of a text. -/
theorem pieces_append {w s : List Char} {k : Kind} (hw : w ≠ [])
    (hk : kindOf? Rule.all w = some k)
    (hbarren : ∀ t u, t ≠ [] → s = t ++ u → kindOf? Rule.all (w ++ t) = none) :
    pieces (w ++ s) = ⟨some k, w⟩ :: pieces s := by
  obtain ⟨c, w, rfl⟩ := List.exists_cons_of_ne_nil hw
  have hfirst : firstPiece c (w ++ s) = (some k, w.length) := by
    rw [firstPiece, ← List.cons_append, longest_append hk hbarren]
    simp only [Nat.zero_add, Nat.add_sub_cancel_left]
  rw [List.cons_append, pieces, hfirst]
  simp only [List.take_left, List.drop_left]

end Scan

end SplQuery
