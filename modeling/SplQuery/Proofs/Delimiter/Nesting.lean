import SplQuery.Lexeme.Basic
import SplQuery.Proofs.Silent.State

/-!
# Nesting of delimiters

Parentheses and brackets are nested where each one that opens is closed by its own kind. Of the
brackets inside a value in parentheses a parse keeps no account, so that some of them may stay open
without a diagnostic. `Accepted` says which delimiters pass.

* `Delimiters.Nested` — each delimiter that opens is closed by its own kind.
* `Delimiters.Skipped` — what passes inside a value in parentheses.
* `Delimiters.Accepted` — what passes in a query.
* `Delimiters.Accepted.nested_parens` — the parentheses by themselves are nested.
* `Delimiters.Accepted.nested_iff` — all delimiters are nested if no bracket stays open.
-/

namespace SplQuery

namespace Kind

/-- A delimiter that opens, and the one that closes it. -/
inductive Pairs : Kind → Kind → Prop where
  | parens : Pairs .lparen .rparen
  | brackets : Pairs .lbracket .rbracket

def isParen : Kind → Bool
  | .lparen | .rparen => true
  | _ => false

theorem isDelimiter_of_isTrivia {k : Kind} (h : k.isTrivia = true) : k.isDelimiter = false := by
  cases k <;> first | rfl | cases h

end Kind

namespace Lexeme

/-- The delimiters among lexemes. -/
def delimiters (lexemes : List Lexeme) : List Kind := (lexemes.map (·.kind)).filter Kind.isDelimiter

theorem delimiters_append (ls ms : List Lexeme) :
    delimiters (ls ++ ms) = delimiters ls ++ delimiters ms := by
  rw [delimiters, List.map_append, List.filter_append, delimiters, delimiters]

/-- Trivia are no delimiters. -/
theorem delimiters_eq (ls : List Lexeme) : delimiters ls = (kinds ls).filter Kind.isDelimiter := by
  induction ls with
  | nil => rfl
  | cons l ls ih =>
    rw [← List.singleton_append, delimiters_append, kinds_append, List.filter_append, ih]
    congr 1
    cases hl : l.isTrivia with
    | true =>
      rw [kinds_of_solid_nil (solid_cons_of_trivia hl [])]
      exact List.filter_cons_of_neg (by simp [Kind.isDelimiter_of_isTrivia hl])
    | false =>
      rw [kinds_cons hl]
      rfl

end Lexeme

namespace Delimiters

/-- Each delimiter that opens is closed by its own kind. -/
inductive Nested : List Kind → Prop where
  | nil : Nested []
  | group {opener closer : Kind} {inside after : List Kind} (hpairs : opener.Pairs closer)
      (hinside : Nested inside) (hafter : Nested after) :
      Nested (opener :: (inside ++ closer :: after))

/-- What passes inside a value in parentheses where so many of them are to be closed yet: further
parentheses and, wherever they stand, brackets that open. -/
inductive Skipped : Nat → List Kind → Prop where
  | nil : Skipped 0 []
  | bracket {depth : Nat} {ks : List Kind} (h : Skipped depth ks) :
      Skipped depth (.lbracket :: ks)
  | opens {depth : Nat} {ks : List Kind} (h : Skipped (depth + 1) ks) :
      Skipped depth (.lparen :: ks)
  | closes {depth : Nat} {ks : List Kind} (h : Skipped depth ks) :
      Skipped (depth + 1) (.rparen :: ks)

/-- What passes without a diagnostic: groups that are closed by their own kind, and values in
parentheses. -/
inductive Accepted : List Kind → Prop where
  | nil : Accepted []
  | group {opener closer : Kind} {inside after : List Kind} (hpairs : opener.Pairs closer)
      (hinside : Accepted inside) (hafter : Accepted after) :
      Accepted (opener :: (inside ++ closer :: after))
  | value {inside after : List Kind} (hinside : Skipped 0 inside) (hafter : Accepted after) :
      Accepted (.lparen :: (inside ++ .rparen :: after))

variable {ks ls : List Kind} {depth : Nat}

namespace Nested

theorem append (h : Nested ks) (h' : Nested ls) : Nested (ks ++ ls) := by
  induction h with
  | nil => exact h'
  | group hpairs hinside _ _ ih =>
    rw [List.cons_append, List.append_assoc, List.cons_append]
    exact .group hpairs hinside ih

/-- As many brackets are closed as are opened. -/
theorem count_brackets (h : Nested ks) : ks.count .lbracket = ks.count .rbracket := by
  induction h with
  | nil => rfl
  | group hpairs _ _ ih ih' =>
    cases hpairs with
    | parens => simp [List.count_append, ih, ih']
    | brackets =>
      simp [List.count_append, ih, ih']
      omega

end Nested

/-- Before each of the parentheses that are to be closed yet, and after the last of them, the
delimiters are nested. -/
def Closes : Nat → List Kind → Prop
  | 0, ks => Nested ks
  | depth + 1, ks => ∃ inside after, ks = inside ++ .rparen :: after ∧ Nested inside ∧
      Closes depth after

theorem Closes.after_nested (h : Nested ks) (h' : Closes depth ls) : Closes depth (ks ++ ls) := by
  cases depth with
  | zero => exact h.append h'
  | succ depth =>
    obtain ⟨inside, after, rfl, hinside, hafter⟩ := h'
    exact ⟨ks ++ inside, after, (List.append_assoc ..).symm, h.append hinside, hafter⟩

namespace Skipped

theorem nested_parens (h : Skipped depth ks) : Closes depth (ks.filter Kind.isParen) := by
  induction h with
  | nil => exact .nil
  | bracket _ ih => exact ih
  | opens _ ih =>
    obtain ⟨inside, after, hks, hinside, hafter⟩ := ih
    rw [List.filter_cons_of_pos rfl, hks]
    have hgroup : Nested (.lparen :: (inside ++ [.rparen])) := .group .parens hinside .nil
    have hclosed := hafter.after_nested hgroup
    rwa [List.cons_append, List.append_assoc] at hclosed
  | closes _ ih => exact ⟨[], _, rfl, .nil, ih⟩

theorem count_rbracket (h : Skipped depth ks) : ks.count .rbracket = 0 := by
  induction h with
  | nil => rfl
  | bracket _ ih | opens _ ih | closes _ ih => rw [List.count_cons_of_ne (by decide), ih]

/-- Where no bracket opens there are parentheses only. -/
theorem filter_eq_self (h : Skipped depth ks) (hbracket : ks.count .lbracket = 0) :
    ks.filter Kind.isParen = ks := by
  induction h with
  | nil => rfl
  | bracket =>
    rw [List.count_cons_self] at hbracket
    cases hbracket
  | opens _ ih | closes _ ih =>
    rw [List.count_cons_of_ne (by decide)] at hbracket
    rw [List.filter_cons_of_pos rfl, ih hbracket]

end Skipped

namespace Accepted

theorem append (h : Accepted ks) (h' : Accepted ls) : Accepted (ks ++ ls) := by
  induction h with
  | nil => exact h'
  | group hpairs hinside _ _ ih =>
    rw [List.cons_append, List.append_assoc, List.cons_append]
    exact .group hpairs hinside ih
  | value hinside _ ih =>
    rw [List.cons_append, List.append_assoc, List.cons_append]
    exact .value hinside ih

/-- The parentheses by themselves are nested. -/
theorem nested_parens (h : Accepted ks) : Nested (ks.filter Kind.isParen) := by
  induction h with
  | nil => exact .nil
  | group hpairs _ _ ih ih' =>
    cases hpairs with
    | parens =>
      rw [List.filter_cons_of_pos rfl, List.filter_append, List.filter_cons_of_pos rfl]
      exact .group .parens ih ih'
    | brackets =>
      rw [List.filter_cons_of_neg (by decide), List.filter_append,
        List.filter_cons_of_neg (by decide)]
      exact ih.append ih'
  | value hinside _ ih =>
    rw [List.filter_cons_of_pos rfl, List.filter_append, List.filter_cons_of_pos rfl]
    exact .group .parens hinside.nested_parens ih

/-- No bracket is closed that was not opened. -/
theorem count_le (h : Accepted ks) : ks.count .rbracket ≤ ks.count .lbracket := by
  induction h with
  | nil => exact Nat.le_refl _
  | group hpairs _ _ ih ih' =>
    cases hpairs <;> simp [List.count_append] <;> omega
  | value hinside _ ih =>
    have hnone := hinside.count_rbracket
    simp [List.count_append]
    omega

/-- Where as many brackets are closed as are opened, no value holds one that stays open. -/
theorem nested (h : Accepted ks) (hcount : ks.count .lbracket = ks.count .rbracket) :
    Nested ks := by
  induction h with
  | nil => exact .nil
  | group hpairs hinside hafter ih ih' =>
    have hle := hinside.count_le
    have hle' := hafter.count_le
    refine .group hpairs (ih ?_) (ih' ?_) <;>
      cases hpairs <;> simp [List.count_append] at hcount <;> omega
  | @value inside after hinside hafter ih =>
    have hle := hafter.count_le
    have hnone := hinside.count_rbracket
    simp [List.count_append] at hcount
    have hbracket : inside.count .lbracket = 0 := by omega
    have hparens : Nested _ := hinside.nested_parens
    rw [hinside.filter_eq_self hbracket] at hparens
    exact .group .parens hparens (ih (by omega))

/-- All delimiters are nested if no bracket stays open. -/
theorem nested_iff (h : Accepted ks) :
    Nested ks ↔ ks.count .lbracket = ks.count .rbracket :=
  ⟨Nested.count_brackets, h.nested⟩

end Accepted

end Delimiters

end SplQuery
