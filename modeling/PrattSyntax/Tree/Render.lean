import PrattSyntax.Tree.Basic

/-!
# Trees as source text

The canonical text of a tree. A prefixed operand is put in parentheses, so that
the text shows what an operator applies to; a number is written as it was read;
an absent value is written as nothing. Statements follow one another without a
separator.
-/

namespace PrattSyntax

/-- The text of an expression. -/
def Expr.render : Expr → String
  | .name identifier => identifier.text
  | .integer token _ => token.literal
  | .prefixed _ operator operand => "(" ++ operator ++ operand.render ++ ")"
  | .infixed _ text => text

/-- The text of a value that may be absent. -/
def Expr.renderOption : Option Expr → String
  | none => ""
  | some value => value.render

/-- The text of a statement. -/
def Statement.render : Statement → String
  | .binding token name value =>
      token.literal ++ " " ++ name.text ++ " = " ++ Expr.renderOption value ++ ";"
  | .returning token value => token.literal ++ " " ++ Expr.renderOption value ++ ";"
  | .expression _ value => Expr.renderOption value

/-- The text of a program. -/
def Program.render (program : Program) : String :=
  String.join (program.statements.map Statement.render)

end PrattSyntax
