import PrattSyntax.Token.Basic

/-!
# Faults

What a parser holds against a text: a cause and the place of the token it is
found at. The wording of a cause is `Cause.message`.
-/

namespace PrattSyntax

/-- Why a text is at fault. -/
inductive Cause where
  /-- One kind of token was required and another one is there. -/
  | unexpected (required found : TokenKind)
  /-- No expression begins with a token of this kind. -/
  | noOpening (kind : TokenKind)
  /-- A number that is too long or too large. -/
  | badInteger (literal : String)
  /-- More expressions inside one another than allowed. -/
  | tooDeep
deriving DecidableEq, Repr

/-- The wording of a cause. -/
def Cause.message : Cause → String
  | .unexpected required found =>
      "expected next token to be " ++ required.name ++ ", got " ++ found.name ++ " instead"
  | .noOpening kind => "no prefix parse function for " ++ kind.name ++ " found"
  | .badInteger literal => "could not parse " ++ literal ++ " as integer"
  | .tooDeep => "expression nesting too deep"

/-- A cause at a place. -/
structure Fault where
  cause : Cause
  span : Span
deriving DecidableEq, Repr

/-- The wording of a fault. -/
def Fault.message (fault : Fault) : String := fault.cause.message

end PrattSyntax
