import SplQuery.Number.Decimal

/-!
# Binary numbers of 64 bits

The numbers without a sign that fit into 64 bits: a significand of at most 53 bits times a power of
two. `nearest` rounds a decimal number to them, and `shortest` gives the decimal number with the
fewest digits that rounds to a given one, the nearest of those.
-/

namespace SplQuery

/-- A number without a sign in 64 bits: `significand · 2 ^ exponent`, or infinity. -/
inductive Binary64 where
  | finite (significand : Nat) (exponent : Int)
  | infinite
  deriving DecidableEq, Repr

namespace Binary64

/-- The least exponent. -/
def leastExponent : Int := -1074

/-- The greatest exponent. -/
def greatestExponent : Int := 971

/-- The least number of 54 bits. A significand is smaller. -/
def significandBound : Nat := 0x20000000000000

/-- A quotient rounded to a whole number, a half to the even one. -/
def roundQuotient (num den : Nat) : Nat :=
  let q := num / den
  match compare (2 * (num % den)) den with
  | .lt => q
  | .gt => q + 1
  | .eq => q + q % 2

/-- A quotient divided by a power of two. -/
def scale (num den : Nat) (exponent : Int) : Nat × Nat :=
  if 0 ≤ exponent then (num, den <<< exponent.toNat) else (num <<< (-exponent).toNat, den)

/-- The exponent at which a quotient above zero has a significand of 53 bits, if there is one. -/
def exponentOf (num den : Nat) : Int :=
  let guess := max ((num.log2 : Int) - den.log2 - 53) leastExponent
  let (n, d) := scale num den guess
  if n / d < significandBound then guess else guess + 1

/-- The number with a significand and an exponent, brought into range. -/
def ofParts (significand : Nat) (exponent : Int) : Binary64 :=
  if significand = significandBound then ofRange (significandBound / 2) (exponent + 1)
  else ofRange significand exponent
where
  /-- Infinity if the exponent is too great. -/
  ofRange (significand : Nat) (exponent : Int) : Binary64 :=
    if exponent ≤ greatestExponent then .finite significand exponent else .infinite

/-- The number nearest to a decimal one; of two equally near, the one with the even significand. -/
def nearest (d : Decimal) : Binary64 :=
  let (num, den) := d.toFraction
  if num = 0 then .finite 0 leastExponent
  else
    let exponent := exponentOf num den
    let (n, d) := scale num den exponent
    ofParts (roundQuotient n d) exponent

/-! ## Back to decimal digits -/

/-- The value as a quotient of two whole numbers. -/
def toFraction (significand : Nat) (exponent : Int) : Nat × Nat := scale significand 1 (-exponent)

/-- The power of ten of the first digit of a quotient above `10 ^ -400`. -/
def leadingPower (num den : Nat) : Int :=
  ((Nat.toDigits 10 (num * Decimal.tenTo 400 / den)).length : Int) - 401

/-- The two decimal numbers around a quotient whose last digit stands at a power of ten. -/
def around (num den : Nat) (power : Int) : Decimal × Decimal :=
  let n := if 0 ≤ power then num / (den * Decimal.tenTo power.toNat)
    else num * Decimal.tenTo (-power).toNat / den
  (⟨n, power⟩, ⟨n + 1, power⟩)

/-- Whether the lower of two neighbours on a decimal grid is nearer to a quotient. -/
def lowerIsNearer (num den : Nat) (lower : Decimal) : Bool :=
  let (n, d) := toMiddle
  num * d ≤ n * den
where
  /-- The middle between the neighbours as a quotient. -/
  toMiddle : Nat × Nat := Decimal.toFraction ⟨10 * lower.coefficient + 5, lower.exponent - 1⟩

/-- The decimal number with a given count of digits that rounds to the same number, if there is
one. -/
def withDigits? (significand : Nat) (exponent : Int) (count : Nat) : Option Decimal :=
  let (num, den) := toFraction significand exponent
  let (lower, upper) := around num den (leadingPower num den - count + 1)
  let readsBack (d : Decimal) : Bool := nearest d == .finite significand exponent
  match readsBack lower, readsBack upper with
  | true, true => some (if lowerIsNearer num den lower then lower else upper)
  | true, false => some lower
  | false, true => some upper
  | false, false => none

/-- The decimal number with the fewest digits that rounds to the same number. Seventeen digits are
always enough. -/
def shortest (significand : Nat) (exponent : Int) : Decimal :=
  if significand = 0 then ⟨0, 0⟩
  else ((List.range 17).findSome? fun n => withDigits? significand exponent (n + 1)).getD ⟨0, 0⟩

end Binary64

end SplQuery
