import SplQuery.Proofs.Lexeme.Freestanding
import SplQuery.Proofs.Query.Places

/-!
# Searches in writing

A search is written as tokens. Terms stand side by side, with or without `AND` between them; the
terms that `OR` joins need no parentheses, and neither does what `NOT` stands before. A value that
is an identifier may be written as it is, and every value may be written between double quotes.

* `Spelling` — how a value may be written.
* `WrittenTerm`, `WrittenOperands`, `WrittenConjunct`, `WrittenTerms` — how terms may be written.
* `Term.nesting` — how deep negations and groups are inside one another.
-/

namespace SplQuery

/-! ## Values -/

/-- A value between double quotes. -/
def quotedText (value : String) : String := String.ofList (Text.quote '"' value.toList)

/-- How a value may be written, with the kind of the lexeme that it then is: as it is, if it is an
identifier that is no reserved word, or between double quotes. -/
inductive Spelling (value : String) : Kind → String → Prop where
  | bare (h : IsIdentifier value) : Spelling value .identifier value
  | quoted : Spelling value .stringLiteral (quotedText value)

/-- How values may be written one after another: with commas between them. -/
inductive WrittenValues : List String → List String → Prop where
  | nil : WrittenValues [] []
  | singleton {value w : String} {k : Kind} (h : Spelling value k w) : WrittenValues [value] [w]
  | cons {value w : String} {k : Kind} {values ws : List String} (h : Spelling value k w)
      (hne : values ≠ []) (hs : WrittenValues values ws) :
      WrittenValues (value :: values) (w :: "," :: ws)

/-! ## Terms -/

/-- The operators that compare a field with a value. -/
def comparisonOperators : List String := ["=", "==", "!=", "<", "<=", ">", ">="]

mutual

/-- How a term that is no disjunction may be written. -/
inductive WrittenTerm : Term → List String → Prop where
  | keyword {text w : String} {k : Kind} {span : Span} (h : Spelling text k w) :
      WrittenTerm (.keyword text (k == .stringLiteral) span) [w]
  | comparison {field operator value f v : String} {k l : Kind} {span : Span}
      (hfield : Spelling field k f) (hoperator : operator ∈ comparisonOperators)
      (hvalue : Spelling value l v) :
      WrittenTerm (.comparison field operator value span) [f, operator, v]
  | oneOf {field f : String} {values ws : List String} {k : Kind} {span : Span}
      (hfield : Spelling field k f) (hvalues : WrittenValues values ws) :
      WrittenTerm (.oneOf field values span) (f :: "IN" :: "(" :: (ws ++ [")"]))
  | not {operand : Term} {ws : List String} {span : Span} (h : WrittenTerm operand ws) :
      WrittenTerm (.not operand span) ("NOT" :: ws)
  | group {terms : List Term} {ws : List String} {span : Span} (h : WrittenTerms terms ws) :
      WrittenTerm (.group terms span) ("(" :: (ws ++ [")"]))

/-- How the operands of a disjunction may be written: two of them at least, with `OR` between
them. -/
inductive WrittenOperands : List Term → List String → Prop where
  | pair {t u : Term} {ws vs : List String} (h : WrittenTerm t ws) (h' : WrittenTerm u vs) :
      WrittenOperands [t, u] (ws ++ "OR" :: vs)
  | more {t : Term} {ts : List Term} {ws vs : List String} (h : WrittenTerm t ws)
      (hs : WrittenOperands ts vs) : WrittenOperands (t :: ts) (ws ++ "OR" :: vs)

/-- How one of several terms that must all hold may be written: a disjunction needs no
parentheses. -/
inductive WrittenConjunct : Term → List String → Prop where
  | term {t : Term} {ws : List String} (h : WrittenTerm t ws) : WrittenConjunct t ws
  | or {operands : List Term} {ws : List String} {span : Span}
      (h : WrittenOperands operands ws) : WrittenConjunct (.or operands span) ws

/-- How terms that must all hold may be written: side by side, or with `AND` between them. -/
inductive WrittenTerms : List Term → List String → Prop where
  | nil : WrittenTerms [] []
  | cons {t : Term} {ts : List Term} {ws vs : List String} (h : WrittenConjunct t ws)
      (hs : WrittenTerms ts vs) : WrittenTerms (t :: ts) (ws ++ vs)
  | and {t : Term} {ts : List Term} {ws vs : List String} (h : WrittenConjunct t ws)
      (hne : ts ≠ []) (hs : WrittenTerms ts vs) : WrittenTerms (t :: ts) (ws ++ "AND" :: vs)

end

/-! ## Nesting -/

namespace Term

mutual

/-- How many negations and groups are at most one inside another. -/
def nesting : Term → Nat
  | .or operands _ => nestingOfAll operands
  | .not operand _ => operand.nesting + 1
  | .group terms _ => nestingOfAll terms + 1
  | _ => 0

/-- The nesting of the most nested one of several terms. -/
def nestingOfAll : List Term → Nat
  | [] => 0
  | t :: ts => max t.nesting (nestingOfAll ts)

end

end Term

end SplQuery
