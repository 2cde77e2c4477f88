import PrattSyntax.Parser.Basic

/-!
# Rules of a grammar

Which kinds begin an expression is fixed; which kinds continue one is up to the
caller. The rule of a kind that stands between or behind operands says how the
expression on its left is folded into a larger one.
-/

namespace PrattSyntax

/-- How an expression can begin. -/
inductive Opening where
  | name
  | number
  | operator
deriving DecidableEq, Repr

/-- How an expression begins with a token of a given kind, if it can. -/
def Opening.ofKind? : TokenKind → Option Opening
  | .ident => some name
  | .int => some number
  | .bang | .minus => some operator
  | _ => none

/-- What a caller's own rule makes of the expression on its left: the larger
expression, unless there is none, how many tokens behind the operator it took,
and the faults it found. -/
structure Fold where
  result : Option Expr
  taken : Nat
  faults : List Fault
deriving DecidableEq, Repr

/-- How an operator continues the expression on its left. -/
inductive InfixRule where
  /-- Between operands; a chain at one level leans to the left. -/
  | leftward
  /-- Between operands; a chain at one level leans to the right. -/
  | rightward
  /-- Behind its operand. -/
  | trailing
  /-- Takes the expression on its left away without a fault. -/
  | drop
  /-- Opens a list of arguments. -/
  | call
  /-- A caller's own rule, which looks at the tokens from the operator on. -/
  | custom (fold : Expr → TokenStream → Fold)

/-- What a parser may vary: the kinds that continue an expression, and how many
expressions may stand inside one another. -/
structure Rules where
  infixRule : TokenKind → Option InfixRule := fun _ => none
  maxDepth : Int := 256

namespace InfixRule

/-- The text of two operands around an operator. -/
def betweenText (left : Expr) (operator : Token) (right : Expr) : String :=
  "(" ++ left.render ++ " " ++ operator.literal ++ " " ++ right.render ++ ")"

/-- The text of an operand before its operator. -/
def trailingText (left : Expr) (operator : Token) : String :=
  "(" ++ left.render ++ " " ++ operator.literal ++ ")"

/-- The text of a call. -/
def callText (callee : Expr) (arguments : List Expr) : String :=
  callee.render ++ "(" ++ ", ".intercalate (arguments.map Expr.render) ++ ")"

end InfixRule

end PrattSyntax
