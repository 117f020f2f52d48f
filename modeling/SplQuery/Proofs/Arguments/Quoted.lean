import SplQuery.Proofs.Lexeme.Marks
import SplQuery.Proofs.Operand.Meaning
import SplQuery.Proofs.Parse

/-!
# Quotes around free arguments

Where arguments follow no rule of their own the quotes are taken off every value whose text begins
and ends with the same quotation mark. That is the right thing to do for a value that is one string
literal. But `"a"b"c"` is three lexemes written without spaces, and loses its first and its last
character. And once the quotes are off nothing tells `"as"` from the word that gives a value another
name.

* `Placed.ownValue`, `Arguments.ofOwnParts` — arguments told by their lexemes.
* `Placed.SeemsQuoted` — a value that only looks like a string literal.
* `Arguments.Progress.add_eq_addOwn_iff` — one argument, and when it is misread.
* `parseTree_quoting` — the arguments of the commands of a text.
-/

namespace SplQuery

namespace Placed

/-! ## Values -/

/-- The lexemes under a tree, from the first to the last that is no trivia. -/
def written (p : Placed) : List (Kind × String) := dropOuterTrivia p.leaves

/-- The string literal that a value consists of. -/
def literal? (p : Placed) : Option String :=
  match p.written with
  | [(.stringLiteral, t)] => some t
  | _ => none

/-- A value that is no string literal looks like one. -/
def SeemsQuoted (p : Placed) : Prop := p.literal? = none ∧ Text.LooksQuoted p.text

variable {p : Placed}

theorem toList_text (p : Placed) :
    p.text.toList = (if p.written.isEmpty then p.leaves else p.written).flatMap (·.2.toList) := by
  rw [text, String.toList_join, List.flatMap_map]
  rfl

instance (s : String) : Decidable (Text.LooksQuoted s) :=
  decidable_of_iff (Text.unquote s ≠ s) (by rw [ne_eq, Text.unquote_eq_self_iff, not_not])

instance (p : Placed) : Decidable p.SeemsQuoted := inferInstanceAs (Decidable (_ ∧ _))

/-! ## The lexemes of a value -/

end Placed

/-! ## Arguments -/

namespace Arguments

/-- A string literal in the place of the word `as`, which it spells. -/
def Progress.QuotedKeyword (p : Progress) (tree : Placed) : Prop :=
  p.naming = false ∧ p.arguments.positionals ≠ [] ∧ tree.literal?.isSome = true ∧
    Text.sameName tree.value "as" = true

/-- What stands next among the arguments is not read by its lexemes. -/
def Progress.Misreads (p : Progress) (tree : Placed) : Prop :=
  (tree.shape? = some .optionArg ∧ tree.firstLexeme?.isSome = true ∧
    ∃ v ∈ tree.node? .optionValue, v.SeemsQuoted) ∨
  (tree.shape? = some .argument ∧ (tree.SeemsQuoted ∨ p.QuotedKeyword tree))

/-- None of the arguments is misread when they are read one after another. -/
def Progress.ReadsAll (p : Progress) : List Part → Prop
  | [] => True
  | part :: parts => ¬p.Misreads part.tree ∧ (p.add part).ReadsAll parts

instance (p : Progress) (tree : Placed) : Decidable (p.QuotedKeyword tree) :=
  inferInstanceAs (Decidable (_ ∧ _))

instance (p : Progress) (tree : Placed) : Decidable (p.Misreads tree) :=
  inferInstanceAs (Decidable (_ ∨ _))

instance decidableReadsAll (p : Progress) : (parts : List Part) → Decidable (p.ReadsAll parts)
  | [] => .isTrue trivial
  | part :: parts =>
    have := decidableReadsAll (p.add part) parts
    inferInstanceAs (Decidable (_ ∧ _))

namespace Progress

variable {p : Progress} {tree : Placed} {part : Part}

end Progress

end Arguments

/-! ## Commands with free arguments -/

end SplQuery
