import Mathlib.Data.List.Basic
import PrattSyntax.Proofs.Lexer.Writing
import PrattSyntax.Proofs.Tree.Provenance
import PrattSyntax.Tree.Outline

/-!
# What is shown of a tree

An outline shows less than there is in a tree: no place, no spelling of a number, and no
token where an expression is missing. What is left is a tree again, and it has the outline
of the whole.

Which tokens of a tree can be told from the outline depends on what they look like. The
words, names and operators of a program that was read from a text are legible.
-/

namespace PrattSyntax

/-! ## What is shown of a tree -/

/-- A token without its place and, if it is a number, without its spelling. -/
def Token.shown (token : Token) : Token :=
  ⟨token.kind, if token.kind = .int then "" else token.literal, .origin⟩

/-- What is shown of a name. -/
def Identifier.shown (identifier : Identifier) : Identifier :=
  { identifier with token := identifier.token.shown }

/-- What is shown of an expression. -/
def Expr.shown : Expr → Expr
  | .name identifier => .name identifier.shown
  | .integer token value => .integer token.shown value
  | .prefixed token operator operand => .prefixed token.shown operator operand.shown
  | .infixed token text => .infixed token.shown text

/-- What is shown of a statement. The token of an expression that is missing is not. -/
def Statement.shown : Statement → Statement
  | .binding token name value => .binding token.shown name.shown (value.map Expr.shown)
  | .returning token value => .returning token.shown (value.map Expr.shown)
  | .expression _ none => .expression ⟨.illegal, "", .origin⟩ none
  | .expression token (some value) => .expression token.shown (some value.shown)

/-- What is shown of a program. -/
def Program.shown (program : Program) : Program := ⟨program.statements.map Statement.shown⟩

theorem Token.shown_eq_of_unplaced_eq {token other : Token}
    (unplacedEq : token.unplaced = other.unplaced) : token.shown = other.shown := by
  have unplacedShown : ∀ token : Token, token.unplaced.shown = token.shown := fun _ => rfl
  rw [← unplacedShown token, unplacedEq, unplacedShown]

/-- Numbers are all shown alike. -/
theorem Token.shown_eq_of_isInt {token other : Token} (isInt : token.kind = .int)
    (otherInt : other.kind = .int) : token.shown = other.shown := by
  simp only [shown, isInt, otherInt, if_true]

theorem Expr.shown_token (expr : Expr) : expr.shown.token = expr.token.shown := by
  cases expr <;> rfl

/-! ## Nothing else is told -/

theorem Expr.outline_shown (expr : Expr) (depth : Nat) :
    expr.shown.outline depth = expr.outline depth := by
  induction expr generalizing depth with
  | prefixed token operator operand inductionHypothesis =>
      rw [shown, outline, outline, inductionHypothesis]
  | _ => rfl

theorem Expr.outlineOption_shown (value : Option Expr) (depth : Nat) :
    outlineOption depth (value.map shown) = outlineOption depth value := by
  cases value with
  | none => rfl
  | some expr => exact expr.outline_shown depth

theorem Statement.outline_shown (statement : Statement) (depth : Nat) :
    statement.shown.outline depth = statement.outline depth := by
  cases statement with
  | binding token name value =>
      rw [shown, outline, outline, Expr.outlineOption_shown]
      rfl
  | returning token value =>
      cases value with
      | none => rfl
      | some expr => exact congrArg (List.cons _) (expr.outline_shown (depth + 1))
  | expression token value =>
      cases value with
      | none => rfl
      | some expr => exact congrArg (List.cons _) (expr.outline_shown (depth + 1))

/-- What is shown of a program has the outline of the program. -/
theorem Program.dump_shown (program : Program) : program.shown.dump = program.dump := by
  have rowsEq : program.shown.statements.flatMap (Statement.outline 1) =
      program.statements.flatMap (Statement.outline 1) := by
    rw [shown, List.flatMap_map]
    exact List.flatMap_congr fun statement _ => statement.outline_shown 1
  rw [dump, dump, outline, outline, rowsEq]

/-! ## Trees of legible tokens -/

/-- Whether a name is read from a legible token. -/
structure Identifier.Legible (identifier : Identifier) : Prop extends identifier.WellFormed where
  legible : identifier.token.Legible

/-- Whether the names and operators of an expression are read from legible tokens, and its
numbers have no sign. -/
inductive Expr.Legible : Expr → Prop
  | name {identifier : Identifier} (target : identifier.Legible) : Legible (.name identifier)
  | integer {token : Token} {value : Int} (isInt : token.kind = .int) (nonnegative : 0 ≤ value) :
      Legible (.integer token value)
  | prefixed {token : Token} {operator : String} {operand : Expr} (legible : token.Legible)
      (operatorEq : operator = token.literal) (inner : operand.Legible) :
      Legible (.prefixed token operator operand)

/-- Whether the words, names and operators of a statement are read from legible tokens. -/
inductive Statement.Legible : Statement → Prop
  | binding {token : Token} {name : Identifier} {value : Option Expr}
      (isLet : token.kind = .letWord) (legible : token.Legible) (target : name.Legible)
      (inner : ∀ expr ∈ value, expr.Legible) : Legible (.binding token name value)
  | returning {token : Token} {value : Option Expr} (isReturn : token.kind = .returnWord)
      (legible : token.Legible) (inner : ∀ expr ∈ value, expr.Legible) :
      Legible (.returning token value)
  | expression {token : Token} {value : Option Expr} (shared : ∀ expr ∈ value, expr.token = token)
      (inner : ∀ expr ∈ value, expr.Legible) : Legible (.expression token value)

theorem Expr.WellFormed.legible {expr : Expr} (wellFormed : expr.WellFormed)
    (legible : ∀ token ∈ expr.tokens, token.kind ≠ .illegal → token.Legible) : expr.Legible := by
  induction wellFormed with
  | @name identifier wellFormed =>
      have legal : identifier.token.kind ≠ .illegal := by simp [wellFormed.isName]
      exact .name ⟨wellFormed, legible _ List.mem_cons_self legal⟩
  | integer isInt valueEq nonnegative => exact .integer isInt nonnegative
  | @prefixed token operator operand isPrefix operatorEq inner inductionHypothesis =>
      have legal : token.kind ≠ .illegal := isPrefix.kind_ne (by decide) (by decide)
      rcases List.forall_mem_cons.mp legible with ⟨tokenLegible, innerLegible⟩
      exact .prefixed (tokenLegible legal) operatorEq (inductionHypothesis innerLegible)

theorem Statement.WellFormed.legible {statement : Statement} (wellFormed : statement.WellFormed)
    (legible : ∀ token ∈ statement.tokens, token.kind ≠ .illegal → token.Legible) :
    statement.Legible := by
  cases wellFormed with
  | @binding token name value isLet target inner =>
      have wordLegal : token.kind ≠ .illegal := by simp [isLet]
      have nameLegal : name.token.kind ≠ .illegal := by simp [target.isName]
      rcases List.forall_mem_cons.mp legible with ⟨wordLegible, others⟩
      rcases List.forall_mem_cons.mp others with ⟨nameLegible, valueLegible⟩
      apply Legible.binding isLet (wordLegible wordLegal) ⟨target, nameLegible nameLegal⟩
      rintro expr ⟨rfl⟩
      exact (inner expr rfl).legible valueLegible
  | @returning token value isReturn inner =>
      have wordLegal : token.kind ≠ .illegal := by simp [isReturn]
      rcases List.forall_mem_cons.mp legible with ⟨wordLegible, valueLegible⟩
      apply Legible.returning isReturn (wordLegible wordLegal)
      rintro expr ⟨rfl⟩
      exact (inner expr rfl).legible valueLegible
  | expression opensOther shared inner =>
      apply Legible.expression shared
      rintro expr ⟨rfl⟩
      exact (inner expr rfl).legible legible

end PrattSyntax
