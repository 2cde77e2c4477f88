import PrattSyntax.Token.Basic

/-!
# Syntax trees

A program is a list of statements. A statement keeps the token that opened it
and may lack its value: what could not be read is absent, and the statement
stays. A name, an integer and a prefixed operand keep the token they come from
next to the value read off it. An expression folded around an operator between
operands belongs to the rule that folded it; the tree knows its operator and its
text only.
-/

namespace PrattSyntax

/-- A name, in an expression or as the target of a `let`. -/
structure Identifier where
  token : Token
  text : String
deriving DecidableEq, Repr

/-- An expression. -/
inductive Expr where
  | name (identifier : Identifier)
  | integer (token : Token) (value : Int)
  | prefixed (token : Token) (operator : String) (operand : Expr)
  | infixed (token : Token) (text : String)
deriving DecidableEq, Repr

/-- A statement: `let name = value;`, `return value;` or an expression alone. -/
inductive Statement where
  | binding (token : Token) (name : Identifier) (value : Option Expr)
  | returning (token : Token) (value : Option Expr)
  | expression (token : Token) (value : Option Expr)
deriving DecidableEq, Repr

/-- The statements of a text, in order. -/
structure Program where
  statements : List Statement
deriving DecidableEq, Repr

/-! ## The tree without places

Two trees are the same up to their place in a text when `unplaced` sends them to
one value. -/

/-- A name without its place. -/
def Identifier.unplaced (identifier : Identifier) : Identifier :=
  { identifier with token := identifier.token.unplaced }

/-- An expression without its place. -/
def Expr.unplaced : Expr → Expr
  | .name identifier => .name identifier.unplaced
  | .integer token value => .integer token.unplaced value
  | .prefixed token operator operand => .prefixed token.unplaced operator operand.unplaced
  | .infixed token text => .infixed token.unplaced text

/-- A statement without its place. -/
def Statement.unplaced : Statement → Statement
  | .binding token name value =>
      .binding token.unplaced name.unplaced (value.map Expr.unplaced)
  | .returning token value => .returning token.unplaced (value.map Expr.unplaced)
  | .expression token value => .expression token.unplaced (value.map Expr.unplaced)

/-- A program without its place. -/
def Program.unplaced (program : Program) : Program :=
  ⟨program.statements.map Statement.unplaced⟩

/-! ## The token of a node -/

/-- The token an expression comes from. -/
def Expr.token : Expr → Token
  | .name identifier => identifier.token
  | .integer token _ => token
  | .prefixed token _ _ => token
  | .infixed token _ => token

/-- The token that opened a statement. -/
def Statement.token : Statement → Token
  | .binding token _ _ => token
  | .returning token _ => token
  | .expression token _ => token

/-- The literal of the first token of a program, if there is one. -/
def Program.tokenLiteral (program : Program) : String :=
  match program.statements with
  | [] => ""
  | statement :: _ => statement.token.literal

end PrattSyntax
