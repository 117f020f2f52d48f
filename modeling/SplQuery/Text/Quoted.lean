/-!
# Quoted values

A value may stand between double or single quotes. Inside, a backslash before the closing quote or
before a backslash stands for that character; before any other it is kept, so that a regular
expression may be written without doubling its backslashes. `quote` writes a value between quotes
and `unquote` reads it back.
-/

namespace SplQuery.Text

/-- Resolves the backslashes between two quotes. -/
def unescape (q : Char) : List Char → List Char
  | [] => []
  | '\\' :: c :: cs =>
    if c = q ∨ c = '\\' then c :: unescape q cs else '\\' :: c :: unescape q cs
  | c :: cs => c :: unescape q cs

/-- Puts a backslash before each quote and each backslash. -/
def escape (q : Char) : List Char → List Char
  | [] => []
  | c :: cs => if c = q ∨ c = '\\' then '\\' :: c :: escape q cs else c :: escape q cs

/-- A value between quotes. -/
def quote (q : Char) (cs : List Char) : List Char := q :: escape q cs ++ [q]

/-- The value between a pair of equal quotes; a text without such a pair is its own value. -/
def unquoteChars : List Char → List Char
  | [] => []
  | q :: cs =>
    if (q = '"' ∨ q = '\'') ∧ cs.getLast? = some q then unescape q cs.dropLast else q :: cs

/-- The value between a pair of equal quotes; a text without such a pair is its own value. -/
def unquote (s : String) : String := String.ofList (unquoteChars s.toList)

/-- Whether a text begins with a given character. -/
def beginsWith (c : Char) (s : String) : Bool := s.toList.head? == some c

theorem unescape_escape (q : Char) (cs : List Char) : unescape q (escape q cs) = cs := by
  induction cs with
  | nil => rfl
  | cons c cs ih =>
    by_cases h : c = q ∨ c = '\\'
    · rw [escape, if_pos h, unescape, if_pos h, ih]
    · rw [escape, if_neg h, unescape, ih]
      intro d ds hc
      exact absurd (.inr hc) h

/-- A value that is written between quotes is read back. -/
theorem unquote_quote {q : Char} (hq : q = '"' ∨ q = '\'') (value : String) :
    unquote (String.ofList (quote q value.toList)) = value := by
  have hlast : (escape q value.toList ++ [q]).getLast? = some q := List.getLast?_concat
  rw [unquote, String.toList_ofList, quote, List.cons_append, unquoteChars, if_pos ⟨hq, hlast⟩,
    List.dropLast_concat, unescape_escape, String.ofList_toList]

end SplQuery.Text
