import SplQuery.Number.Binary64

/-!
# Numbers in writing

A number is written with the fewest digits that read back. Near one it is written positionally, with
at least one digit after the point; far from one it has one digit before the point and a power of
ten.
-/

namespace SplQuery

/-- How numbers are written. -/
structure NumberNotation where
  /-- the least power of ten of a first digit that is written positionally -/
  leastPower : Int
  /-- the greatest power of ten of a first digit that is written positionally -/
  greatestPower : Int
  /-- what stands between the digits and a power of ten that is not negative -/
  exponentMark : String
  /-- what infinity is written as -/
  infinity : String

namespace NumberNotation

/-- A digit and those after it, with a point behind the first one. -/
def pointed : List Char → String
  | [] => ""
  | [c] => c.toString
  | c :: cs => String.ofList (c :: '.' :: cs)

/-- Digits that begin at a power of ten, written positionally. -/
def positional (digits : List Char) (power : Int) : String :=
  if power < 0 then
    "0." ++ "".pushn '0' (-power - 1).toNat ++ String.ofList digits
  else
    let whole := power.toNat + 1
    let fraction := digits.drop whole
    String.ofList (digits.take whole) ++ "".pushn '0' (whole - digits.length) ++ "." ++
      (if fraction.isEmpty then "0" else String.ofList fraction)

/-- Digits that begin at a power of ten, written with that power. -/
def scientific (style : NumberNotation) (digits : List Char) (power : Int) : String :=
  pointed digits ++ (if power < 0 then "e" else style.exponentMark) ++ toString power

/-- The digits of a number without the zeros at the end. -/
def significantDigits (n : Nat) : List Char :=
  ((Nat.toDigits 10 n).reverse.dropWhile (· = '0')).reverse

/-- A number in writing. -/
def write (style : NumberNotation) : Binary64 → String
  | .infinite => style.infinity
  | .finite significand exponent =>
    let d := Binary64.shortest significand exponent
    if d.coefficient = 0 then "0.0"
    else
      let digits := significantDigits d.coefficient
      let power := ((Nat.toDigits 10 d.coefficient).length : Int) - 1 + d.exponent
      if style.leastPower ≤ power && power ≤ style.greatestPower then positional digits power
      else style.scientific digits power

end NumberNotation

end SplQuery
