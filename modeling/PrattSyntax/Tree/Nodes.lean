import PrattSyntax.Tree.Render

/-!
# The nodes of a tree

A program flattened in reading order: a statement, then the name it binds, then
its value and the operands inside.
-/

namespace PrattSyntax

/-- What can be told of a node without looking at its parts. -/
structure NodeSummary where
  label : String
  literal : String
  text : String
deriving DecidableEq, Repr

/-- The label of an expression. -/
def Expr.label : Expr → String
  | .name _ => "Identifier"
  | .integer _ _ => "IntegerLiteral"
  | .prefixed _ _ _ => "PrefixExpression"
  | .infixed _ _ => "InfixNode"

/-- The label of a statement. -/
def Statement.label : Statement → String
  | .binding _ _ _ => "LetStatement"
  | .returning _ _ => "ReturnStatement"
  | .expression _ _ => "ExpressionStatement"

/-- An expression and the operands inside it, outermost first. -/
def Expr.chain : Expr → List Expr
  | .prefixed token operator operand => .prefixed token operator operand :: operand.chain
  | leaf => [leaf]

/-- An expression by itself. -/
def Expr.summary (expr : Expr) : NodeSummary :=
  ⟨expr.label, expr.token.literal, expr.render⟩

/-- A statement by itself. -/
def Statement.summary (statement : Statement) : NodeSummary :=
  ⟨statement.label, statement.token.literal, statement.render⟩

/-- The value of a statement, with the name before it if the statement binds one. -/
def Statement.parts : Statement → List Expr
  | .binding _ name value => .name name :: value.toList
  | .returning _ value => value.toList
  | .expression _ value => value.toList

/-- Every node of a program in reading order. -/
def Program.nodes (program : Program) : List NodeSummary :=
  program.statements.flatMap fun statement =>
    statement.summary :: (statement.parts.flatMap Expr.chain).map Expr.summary

end PrattSyntax
