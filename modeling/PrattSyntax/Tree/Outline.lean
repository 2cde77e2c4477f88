import PrattSyntax.Text.Quoted
import PrattSyntax.Tree.Nodes

/-!
# Outlines

An outline shows a tree one node a row, each row indented by its depth. A value
that should be there and is not has a row of its own; only a `return` may be
without one.
-/

namespace PrattSyntax

/-- A row of an outline. -/
structure OutlineRow where
  depth : Nat
  text : String
deriving DecidableEq, Repr

/-- The row as a line: two spaces for each level of depth. -/
def OutlineRow.line (row : OutlineRow) : String :=
  String.join (List.replicate row.depth "  ") ++ row.text ++ "\n"

/-- The rows of an expression. -/
def Expr.outline (depth : Nat) : Expr → List OutlineRow
  | .name identifier => [⟨depth, "Identifier(" ++ Text.quote identifier.text ++ ")"⟩]
  | .integer _ value => [⟨depth, "IntegerLiteral(" ++ toString value ++ ")"⟩]
  | .prefixed _ operator operand =>
      ⟨depth, "PrefixExpression " ++ operator⟩ :: operand.outline (depth + 1)
  | .infixed _ text => [⟨depth, "InfixNode(" ++ Text.quote text ++ ")"⟩]

/-- The rows of a value that should be there. -/
def Expr.outlineOption (depth : Nat) : Option Expr → List OutlineRow
  | none => [⟨depth, "<missing>"⟩]
  | some value => value.outline depth

/-- The rows of a statement. -/
def Statement.outline (depth : Nat) : Statement → List OutlineRow
  | .binding _ name value =>
      ⟨depth, "LetStatement " ++ name.text⟩ :: Expr.outlineOption (depth + 1) value
  | .returning _ none => [⟨depth, "ReturnStatement"⟩]
  | .returning _ (some value) => ⟨depth, "ReturnStatement"⟩ :: value.outline (depth + 1)
  | .expression _ value =>
      ⟨depth, "ExpressionStatement"⟩ :: Expr.outlineOption (depth + 1) value

/-- The rows of a program. -/
def Program.outline (program : Program) : List OutlineRow :=
  ⟨0, "Program"⟩ :: program.statements.flatMap (Statement.outline 1)

/-- The outline of a program as text. -/
def Program.dump (program : Program) : String :=
  String.join (program.outline.map OutlineRow.line)

end PrattSyntax
