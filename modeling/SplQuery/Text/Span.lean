/-!
# Stretches of a text

Places in a text are counted in bytes of its UTF-8 form. A `Span` runs from one place up to and
without another; `before` and `after` cut a list of characters at a place. Places are numbers
without a bound here: a text has less than 2 ^ 32 bytes, so that each place of it, each line and
each column is a number of 32 bits.

* `before_append_after` — cutting loses nothing.
* `before_width`, `after_width`, `slice_width` — a text is cut exactly where one of its parts ends.
-/

namespace SplQuery

/-- The stretch of a text from `start` up to and without `stop`, in bytes. -/
structure Span where
  /-- the place of the first byte -/
  start : Nat
  /-- the place after the last byte -/
  stop : Nat
  deriving DecidableEq, Repr, Inhabited

namespace Span

/-- The span without content at a place. -/
def emptyAt (place : Nat) : Span := ⟨place, place⟩

/-- Whether the span has no content. -/
def isEmpty (s : Span) : Bool := s.start == s.stop

/-- Whether `inner` lies within `outer`. -/
def contains (outer inner : Span) : Bool :=
  outer.start ≤ inner.start && inner.stop ≤ outer.stop

end Span

namespace Text

/-- The number of bytes of a list of characters. -/
def width : List Char → Nat
  | [] => 0
  | c :: cs => c.utf8Size + width cs

/-- The characters that end at or before a place. -/
def before : Nat → List Char → List Char
  | _, [] => []
  | place, c :: cs => if c.utf8Size ≤ place then c :: before (place - c.utf8Size) cs else []

/-- The characters from a place on. -/
def after : Nat → List Char → List Char
  | _, [] => []
  | place, c :: cs => if c.utf8Size ≤ place then after (place - c.utf8Size) cs else c :: cs

/-- The characters of a span. -/
def slice (s : Span) (cs : List Char) : List Char := before (s.stop - s.start) (after s.start cs)

theorem before_append_after (place : Nat) (cs : List Char) :
    before place cs ++ after place cs = cs := by
  induction cs generalizing place with
  | nil => rfl
  | cons c cs ih => by_cases h : c.utf8Size ≤ place <;> simp [before, after, h, ih]

theorem width_append (cs ds : List Char) : width (cs ++ ds) = width cs + width ds := by
  induction cs with
  | nil => simp [width]
  | cons c cs ih => simp [width, ih, Nat.add_assoc]

/-- A text has at least as many bytes as characters. -/
theorem length_le_width (cs : List Char) : cs.length ≤ width cs := by
  induction cs with
  | nil => exact Nat.le_refl 0
  | cons c cs ih =>
    have := c.utf8Size_pos
    simp only [width, List.length_cons]
    omega

/-! A text is cut exactly where one of its parts ends. -/

theorem before_width (cs ds : List Char) : before (width cs) (cs ++ ds) = cs := by
  induction cs with
  | nil =>
    cases ds with
    | nil => rfl
    | cons d ds =>
      have := d.utf8Size_pos
      simp only [width, List.nil_append, before, if_neg (Nat.not_le.mpr this)]
  | cons c cs ih => simp [before, width, ih]

theorem after_width (cs ds : List Char) : after (width cs) (cs ++ ds) = ds := by
  have h := before_append_after (width cs) (cs ++ ds)
  rw [before_width] at h
  exact List.append_cancel_left h

/-- A span whose ends are those of a part of a text cuts out that part. -/
theorem slice_width (cs ds es : List Char) :
    slice ⟨width cs, width cs + width ds⟩ (cs ++ (ds ++ es)) = ds := by
  rw [slice, after_width, Nat.add_sub_cancel_left, before_width]

end Text

end SplQuery
