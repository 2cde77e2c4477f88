import PrattSyntax.Token.Kind

/-!
# Precedence

How tightly an operator binds. Levels are compared through `Precedence.rank`,
because an operand may be read at a bound between or outside the levels.
-/

namespace PrattSyntax

/-- The levels of binding, from loosest to tightest. -/
inductive Precedence where
  | lowest
  | equals
  | lessGreater
  | sum
  | product
  | prefixed
  | call
deriving DecidableEq, Repr

namespace Precedence

/-- The name of a level in listings. -/
def name : Precedence → String
  | lowest => "LOWEST"
  | equals => "EQUALS"
  | lessGreater => "LESSGREATER"
  | sum => "SUM"
  | product => "PRODUCT"
  | prefixed => "PREFIX"
  | call => "CALL"

/-- The level as a number, from one. -/
def rank : Precedence → Int
  | lowest => 1
  | equals => 2
  | lessGreater => 3
  | sum => 4
  | product => 5
  | prefixed => 6
  | call => 7

/-- The level of an operator between two operands, where a kind has one. -/
def ofOperator? : TokenKind → Option Precedence
  | .equal | .bangEqual => some equals
  | .lessThan | .greaterThan => some lessGreater
  | .plus | .minus => some sum
  | .asterisk | .slash => some product
  | .leftParen => some call
  | _ => none

/-- The level of a kind between two operands; what is no operator binds loosest. -/
def ofKind (kind : TokenKind) : Precedence :=
  (ofOperator? kind).getD lowest

/-- No level ranks below the loosest. -/
theorem rank_lowest_le (precedence : Precedence) : lowest.rank ≤ precedence.rank := by
  cases precedence <;> decide

end Precedence

end PrattSyntax
