/-!
# Decimal numbers

A `Decimal` is a whole number times a power of ten. Numbers in a query are written without a sign
and without an exponent; whole numbers, where an option asks for one, may have a plus sign.
-/

namespace SplQuery

/-- The number `coefficient · 10 ^ exponent`. -/
structure Decimal where
  coefficient : Nat
  exponent : Int
  deriving DecidableEq, Repr

namespace Decimal

/-- The number whose decimal digits are given, the first one first. -/
def ofDigits (digits : List Char) : Nat :=
  digits.foldl (fun n c => 10 * n + (c.toNat - '0'.toNat)) 0

/-- Reads digits with a point among them or without one. -/
def read (text : String) : Decimal :=
  let whole := text.toList.takeWhile (· ≠ '.')
  let fraction := (text.toList.dropWhile (· ≠ '.')).drop 1
  ⟨ofDigits (whole ++ fraction), -(fraction.length : Int)⟩

/-- Ten to a power. -/
def tenTo (power : Nat) : Nat := Nat.pow 10 power

/-- The value as a quotient of two whole numbers. -/
def toFraction (d : Decimal) : Nat × Nat :=
  if 0 ≤ d.exponent then (d.coefficient * tenTo d.exponent.toNat, 1)
  else (d.coefficient, tenTo (-d.exponent).toNat)

end Decimal

namespace Text

/-- Reads a whole number below a bound: digits, with a plus sign in front or without one. -/
def readBelow? (bound : Nat) (text : String) : Option Nat :=
  let digits := match text.toList with
    | '+' :: cs => cs
    | cs => cs
  if digits.isEmpty || !digits.all Char.isDigit then none
  else
    let n := Decimal.ofDigits digits
    if n < bound then some n else none

end Text

end SplQuery
