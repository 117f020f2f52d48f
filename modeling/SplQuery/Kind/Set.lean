import SplQuery.Kind.Basic

/-!
# Sets of labels

A `LabelSet` is a bit per label, at the label's position in `Label.all`. Two sets with the same
members are equal, and a set prints its members in label order.
-/

namespace SplQuery

/-- A set of labels, as the number whose binary digit at `l.index` says whether `l` is in it. -/
structure LabelSet where
  /-- one binary digit per label -/
  bits : Nat
  deriving DecidableEq, Repr

namespace LabelSet

/-- The set without members. -/
def empty : LabelSet := ⟨0⟩

/-- Whether a label is in the set. -/
def contains (s : LabelSet) (l : Label) : Bool := s.bits.testBit l.index

/-- The set together with one more label. -/
def insert (s : LabelSet) (l : Label) : LabelSet := ⟨s.bits ||| 1 <<< l.index⟩

/-- The labels of either set. -/
def union (s t : LabelSet) : LabelSet := ⟨s.bits ||| t.bits⟩

/-- The set of the labels of a list. -/
def ofList (ls : List Label) : LabelSet := ls.foldl insert empty

/-- The members, in label order. -/
def toList (s : LabelSet) : List Label := Label.all.filter s.contains

/-- The members' names between braces, in label order. -/
def render (s : LabelSet) : String :=
  "\x7b" ++ ", ".intercalate (s.toList.map Label.name) ++ "\x7d"

theorem contains_union (s t : LabelSet) (l : Label) :
    (s.union t).contains l = (s.contains l || t.contains l) := by
  simp [union, contains, Nat.testBit_or]

theorem contains_empty (l : Label) : empty.contains l = false := by
  simp [empty, contains]

end LabelSet

end SplQuery
