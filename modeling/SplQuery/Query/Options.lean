import SplQuery.Number.Decimal
import SplQuery.Text.Characters

/-!
# Options of a command

Options are pairs of a name and a value. A name stands once, where it was first given, with the
value that was given last.
-/

namespace SplQuery

/-- Options in the order in which their names were first given. -/
structure Options where
  entries : List (String × String)
  deriving DecidableEq, Repr, Inhabited

namespace Options

/-- No options. -/
def empty : Options := ⟨[]⟩

/-- Sets a name among entries. -/
def insertInto (name value : String) : List (String × String) → List (String × String)
  | [] => [(name, value)]
  | e :: es => if e.1 = name then (name, value) :: es else e :: insertInto name value es

/-- Gives a name a value, in the place of the one that it had. -/
def insert (o : Options) (name value : String) : Options := ⟨insertInto name value o.entries⟩

/-- The options given by pairs one after another. -/
def ofList (pairs : List (String × String)) : Options :=
  pairs.foldl (fun o p => o.insert p.1 p.2) empty

/-- The value of a name among entries. -/
def valueIn (name : String) : List (String × String) → Option String
  | [] => none
  | e :: es => if e.1 = name then some e.2 else valueIn name es

/-- The value of a name. -/
def get? (o : Options) (name : String) : Option String := valueIn name o.entries

/-- The options whose names are in a class. -/
def filter (keep : String → Bool) (o : Options) : Options := ⟨o.entries.filter (keep ·.1)⟩

theorem valueIn_insertInto (name value other : String) (es : List (String × String)) :
    valueIn other (insertInto name value es) =
      if name = other then some value else valueIn other es := by
  induction es with
  | nil => rfl
  | cons e es ih =>
    by_cases hk : e.1 = name
    · by_cases ho : name = other <;> simp [insertInto, valueIn, hk, ho]
    · rw [insertInto, if_neg hk, valueIn, valueIn, ih]
      by_cases ho : name = other
      · rw [if_neg (ho ▸ hk), if_pos ho, if_pos ho]
      · rw [if_neg ho, if_neg ho]

/-- A name has the value that was given last. -/
theorem get?_insert (o : Options) (name value other : String) :
    (o.insert name value).get? other = if name = other then some value else o.get? other :=
  valueIn_insertInto name value other o.entries

end Options

/-! ## Values of options -/

namespace Text

/-- Reads a whole number of at most 64 bits, blanks around it left aside. -/
def readCount? (text : String) : Option Nat := readBelow? 0x10000000000000000 (trim text)

/-- Reads a whole number of at most 32 bits. -/
def readSmall? (text : String) : Option Nat := readBelow? 0x100000000 text

/-- Reads a truth value in one of its spellings, in any case. -/
def readFlag? (text : String) : Option Bool :=
  let word := text.toLower
  if ["true", "t", "1", "yes"].contains word then some true
  else if ["false", "f", "0", "no"].contains word then some false
  else none

end Text

namespace Options

/-- The value of a name as a whole number. -/
def count? (o : Options) (name : String) : Option Nat := (o.get? name).bind Text.readCount?

/-- The value of a name as a truth value; what is absent or no truth value has the given one. -/
def flag (o : Options) (name : String) (otherwise : Bool) : Bool :=
  ((o.get? name).bind Text.readFlag?).getD otherwise

end Options

end SplQuery
