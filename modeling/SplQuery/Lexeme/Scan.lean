import SplQuery.Lexeme.Basic
import SplQuery.Lexeme.Rules

/-!
# Cutting a text into lexemes

At each place the longest stretch that some rule describes becomes a lexeme. Where no rule
describes any stretch, everything up to the character at which the last rule fails is garbage, at
least one character, and garbage that follows garbage is one lexeme with it.
-/

namespace SplQuery

/-- A stretch of text with the kind that a rule gave it, or without one. -/
structure Piece where
  kind? : Option Kind
  text : List Char

namespace Scan

/-- The rules that can still be completed after a character. -/
def advance (live : List Rule) (c : Char) : List Rule :=
  (live.map fun r => ⟨r.form.next c, r.kind⟩).filter (!·.form.isDead)

/-- The kind of the first rule that is complete. -/
def complete? (live : List Rule) : Option Kind :=
  (live.find? (·.form.acceptsNow)).map (·.kind)

/-- Reads characters while some rule is alive. `best` is the longest match so far, as the number
of characters read when it was found; `count` is the number read by now. Without a match the
answer is the number of characters before the one at which the last rule failed. -/
def longest (live : List Rule) (best : Option (Nat × Kind)) (count : Nat) :
    List Char → Option Kind × Nat
  | [] => answer best count
  | c :: cs =>
    match advance live c with
    | [] => answer best count
    | live =>
      longest live (((complete? live).map (count + 1, ·)).or best) (count + 1) cs
where
  answer : Option (Nat × Kind) → Nat → Option Kind × Nat
    | some (length, kind), _ => (some kind, length)
    | none, count => (none, count)

/-- The first piece of a text that begins with `c`, as its kind and the number of characters that
it takes after `c`. -/
def firstPiece (c : Char) (cs : List Char) : Option Kind × Nat :=
  let (kind?, length) := longest Rule.all none 0 (c :: cs)
  (kind?, length - 1)

/-- Cuts a text into pieces. -/
def pieces : List Char → List Piece
  | [] => []
  | c :: cs =>
    let (kind?, extra) := firstPiece c cs
    ⟨kind?, c :: cs.take extra⟩ :: pieces (cs.drop extra)
termination_by cs => cs.length
decreasing_by simp only [List.length_cons, List.length_drop]; omega

/-- Puts a piece in front of kinds and texts, joining garbage with garbage. -/
def addPiece (p : Piece) (rest : List (Kind × List Char)) : List (Kind × List Char) :=
  match p.kind?, rest with
  | some kind, rest => (kind, p.text) :: rest
  | none, (.garbage, text) :: rest => (.garbage, p.text ++ text) :: rest
  | none, rest => (.garbage, p.text) :: rest

/-- Gives each text its place, the first one the place `start`. -/
def placeAll (start : Nat) : List (Kind × List Char) → List Lexeme
  | [] => []
  | (kind, text) :: rest =>
    ⟨kind, start, String.ofList text⟩ :: placeAll (start + Text.width text) rest

/-- Cuts a text into lexemes, every `*` by itself. -/
def lexemes (text : List Char) : List Lexeme :=
  placeAll 0 ((pieces text).foldr addPiece [])

end Scan

end SplQuery
