/-!
# Integer literals

A literal stands for an integer when it is a run of ASCII digits, not longer
than `maxDigits`, whose value fits into 64 bits with a sign. Zeros in front
count as digits.
-/

namespace PrattSyntax.IntegerLiteral

/-- The longest literal that is converted. -/
def maxDigits : Nat := 4300

/-- The least integer of 64 bits. -/
def least : Int := -0x8000000000000000

/-- The greatest integer of 64 bits. -/
def greatest : Int := 0x7fffffffffffffff

/-- The number that a run of decimal digits stands for. -/
def decimal (digits : List Char) : Nat :=
  digits.foldl (fun value digit => 10 * value + (digit.toNat - '0'.toNat)) 0

/-- The value of a literal, where it has one. -/
def value? (literal : String) : Option Int :=
  let digits := literal.toList
  if digits ≠ [] ∧ digits.all Char.isDigit ∧ digits.length ≤ maxDigits ∧
      least ≤ decimal digits ∧ (decimal digits : Int) ≤ greatest then
    some (decimal digits)
  else
    none

end PrattSyntax.IntegerLiteral
