/-!
# Floating point numbers

A floating point number of 64 bits is a whole number below `2 ^ 53` times a power of
two, with a sign; besides there are the infinite ones and one that is no number. A
decimal number stands for the nearest of them, and of two for the even one. A number
is shown with the fewest decimal digits that stand for it, and where several such
numbers have as few digits, with the one nearest to it.
-/

namespace PrattSyntax.Toml

/-- A fraction. -/
structure Fraction where
  numerator : Nat
  denominator : Nat
deriving DecidableEq, Repr

namespace Fraction

/-- A fraction times a power. -/
def scale (fraction : Fraction) (base : Nat) (power : Int) : Fraction :=
  if 0 ≤ power then ⟨fraction.numerator * base.pow power.toNat, fraction.denominator⟩
  else ⟨fraction.numerator, fraction.denominator * base.pow (-power).toNat⟩

/-- The whole number below a fraction. -/
def floor (fraction : Fraction) : Nat := fraction.numerator / fraction.denominator

/-- Whether a fraction is nearer to the whole number above it than to the one below. Of
both the even one is taken where it is as near to either. -/
def roundsUp (fraction : Fraction) : Bool :=
  let excess := 2 * (fraction.numerator % fraction.denominator)
  fraction.denominator < excess || (excess = fraction.denominator && fraction.floor % 2 = 1)

/-- The whole number nearest to a fraction. -/
def round (fraction : Fraction) : Nat :=
  if fraction.roundsUp then fraction.floor + 1 else fraction.floor

end Fraction

/-- A floating point number of 64 bits. -/
inductive Double where
  | finite (negative : Bool) (significand : Nat) (exponent : Int)
  | infinite (negative : Bool)
  | undefined
deriving DecidableEq, Repr

namespace Double

/-- The significands are below this number. -/
def significandBound : Nat := Nat.pow 2 53

/-- The least exponent of a number. -/
def leastExponent : Int := -1074

/-- The greatest exponent of a number. -/
def greatestExponent : Int := 971

/-- The exponent of the numbers around a fraction. Their significands have 53 bits, or
less where the exponent is the least one. -/
def exponentOf (fraction : Fraction) : Int :=
  let estimate : Int := fraction.numerator.log2 - fraction.denominator.log2 - 53
  let exponent :=
    if (fraction.scale 2 (-estimate)).floor < significandBound then estimate else estimate + 1
  max leastExponent exponent

/-- The number nearest to a fraction. -/
def ofFraction (negative : Bool) (fraction : Fraction) : Double :=
  let exponent := exponentOf fraction
  let significand := (fraction.scale 2 (-exponent)).round
  let (significand, exponent) :=
    if significand = significandBound then (significandBound / 2, exponent + 1)
    else (significand, exponent)
  if greatestExponent < exponent then .infinite negative
  else .finite negative significand exponent

/-- The count of the decimal digits of a number. -/
def digitCount (value : Nat) : Nat := (Nat.toDigits 10 value).length

/-- The number nearest to a whole number times a power of ten. Powers far from those of
the numbers there are need not be computed. -/
def ofDecimal (negative : Bool) (digits : Nat) (power : Int) : Double :=
  let magnitude := power + digitCount digits
  if digits = 0 ∨ magnitude < -400 then .finite negative 0 leastExponent
  else if 400 < magnitude then .infinite negative
  else ofFraction negative (.scale ⟨digits, 1⟩ 10 power)

/-- The power of ten right above a fraction. -/
def decimalPoint (fraction : Fraction) : Int :=
  let estimate : Int := digitCount fraction.numerator - digitCount fraction.denominator
  if (fraction.scale 10 (-estimate)).floor = 0 then estimate else estimate + 1

/-- The whole numbers around a fraction, the nearer one first. -/
def around (fraction : Fraction) : List Nat :=
  if fraction.roundsUp then [fraction.floor + 1, fraction.floor]
  else [fraction.floor, fraction.floor + 1]

/-- The whole number with the fewest digits that, times a power of ten, stands for a
number above zero, and this power. -/
def shortest (significand : Nat) (exponent : Int) : Nat × Int :=
  let fraction := Fraction.scale ⟨significand, 1⟩ 2 exponent
  let ofCount (count : Nat) : Option (Nat × Int) :=
    let power := decimalPoint fraction - (count + 1 : Nat)
    ((around (fraction.scale 10 (-power))).find? fun digits =>
      ofDecimal false digits power = .finite false significand exponent).map (·, power)
  ((List.range 17).findSome? ofCount).getD (0, 0)

/-- An exponent as it is shown, with a sign and at least two digits. -/
def shownExponent (exponent : Int) : String :=
  let digits := toString exponent.natAbs
  (if exponent < 0 then "e-" else "e+") ++ "".pushn '0' (2 - digits.length) ++ digits

/-- Digits behind a point as they are shown: powers of ten near to one are written out. -/
def shownDigits (digits : List Char) (point : Int) : String :=
  if -4 < point ∧ point ≤ 16 then
    if point ≤ 0 then "0." ++ "".pushn '0' (-point).toNat ++ String.ofList digits
    else
      let behind := digits.drop point.toNat
      String.ofList (digits.take point.toNat) ++ "".pushn '0' (point.toNat - digits.length)
        ++ "." ++ (if behind = [] then "0" else String.ofList behind)
  else
    let behind := digits.drop 1
    String.ofList (digits.take 1) ++ (if behind = [] then "" else "." ++ String.ofList behind)
      ++ shownExponent (point - 1)

/-- A number as it is shown. -/
def shown : Double → String
  | .finite negative significand exponent =>
      let (digits, power) := if significand = 0 then (0, 0) else shortest significand exponent
      let written := Nat.toDigits 10 digits
      let plain := if digits = 0 then "0.0"
        else shownDigits (written.reverse.dropWhile (· = '0')).reverse (written.length + power)
      (if negative then "-" else "") ++ plain
  | .infinite negative => if negative then "-inf" else "inf"
  | .undefined => "nan"

end Double

end PrattSyntax.Toml
