import Mathlib.Logic.Relation
import Mathlib.Tactic.ByContra
import PrattSyntax.Proofs.Parser.Induction
import PrattSyntax.Parser.Program

/-!
# Calls

The functions of a parser call one another, and every loop is a function that
calls itself. Which call makes which other ones is a relation, read off the
equations of the functions but for one thing: a climb goes on at the end of a text
as it does anywhere else. So the relation says what would happen without the stop
there, and whether a chain of calls ends is a question about it. The loops that skip
tokens call nothing and drop a token each time; they are no calls here.

A chain can only go on for ever by climbing at the end of a text. No rule for the
mark of the end forbids that, and so does a bound that is no lower than the
loosest level; the calls of a whole program keep to such bounds.
-/

namespace PrattSyntax

/-- A call of one of the functions of a parser. -/
inductive Call where
  | program (parser : Parser)
  | statement (parser : Parser)
  | letStatement (parser : Parser)
  | returnStatement (parser : Parser)
  | expressionStatement (parser : Parser)
  | expression (bound : Int) (parser : Parser)
  | prefixed (parser : Parser)
  | climb (bound : Int) (left : Expr) (parser : Parser)
  | fold (rule : InfixRule) (left : Expr) (parser : Parser)
  | arguments (parser : Parser)

namespace Call

variable {rules : Rules}

/-- The calls that a call makes. A function that goes on behind something read is
called where that was read; a caller's own rule reads no expression. -/
inductive Makes (rules : Rules) : Call → Call → Prop
  | statement {parser : Parser} (inside : ¬ parser.atEnd) :
      Makes rules (program parser) (statement parser)
  | nextStatement {parser : Parser} (inside : ¬ parser.atEnd) :
      Makes rules (program parser) (program (parser.statement rules).parser.advance)
  | letStatement {parser : Parser} (isLet : parser.current.kind = .letWord) :
      Makes rules (statement parser) (letStatement parser)
  | returnStatement {parser : Parser} (isReturn : parser.current.kind = .returnWord) :
      Makes rules (statement parser) (returnStatement parser)
  | expressionStatement {parser : Parser} (notLet : parser.current.kind ≠ .letWord)
      (notReturn : parser.current.kind ≠ .returnWord) :
      Makes rules (statement parser) (expressionStatement parser)
  | letValue {parser named assigned : Parser} (name : parser.expect .ident = .ok named)
      (sign : named.expect .assign = .ok assigned) :
      Makes rules (letStatement parser) (expression Precedence.lowest.rank assigned.advance)
  | returnValue {parser : Parser} (notClosed : parser.peek.kind ≠ .semicolon)
      (notEnded : parser.peek.kind ≠ .eof) :
      Makes rules (returnStatement parser) (expression Precedence.lowest.rank parser.advance)
  | alone {parser : Parser} :
      Makes rules (expressionStatement parser) (expression Precedence.lowest.rank parser)
  | prefixed {bound : Int} {parser : Parser} (allowed : ¬ rules.maxDepth ≤ parser.depth)
      (opens : Opening.ofKind? parser.current.kind = some .operator) :
      Makes rules (expression bound parser) (prefixed parser.enter)
  | climb {bound : Int} {parser : Parser} {opened : Opening} {left : Expr}
      (allowed : ¬ rules.maxDepth ≤ parser.depth)
      (opens : Opening.ofKind? parser.current.kind = some opened)
      (read : (parser.enter.opening rules opened).result = some left) :
      Makes rules (expression bound parser)
        (climb bound left (parser.enter.opening rules opened).parser)
  | operand {parser : Parser} :
      Makes rules (prefixed parser) (expression Precedence.prefixed.rank parser.advance)
  | fold {bound : Int} {left : Expr} {parser : Parser} {rule : InfixRule}
      (notClosed : parser.peek.kind ≠ .semicolon)
      (tighter : bound < (Precedence.ofKind parser.peek.kind).rank)
      (ruleEq : rules.infixRule parser.peek.kind = some rule) :
      Makes rules (climb bound left parser) (fold rule left parser.advance)
  | climbOn {bound : Int} {left grown : Expr} {parser : Parser} {rule : InfixRule}
      (notClosed : parser.peek.kind ≠ .semicolon)
      (tighter : bound < (Precedence.ofKind parser.peek.kind).rank)
      (ruleEq : rules.infixRule parser.peek.kind = some rule)
      (folded : (parser.advance.fold rules rule left).result = some grown) :
      Makes rules (climb bound left parser)
        (climb bound grown (parser.advance.fold rules rule left).parser)
  | leftward {left : Expr} {parser : Parser} :
      Makes rules (fold .leftward left parser)
        (expression (Precedence.ofKind parser.current.kind).rank parser.advance)
  | rightward {left : Expr} {parser : Parser} :
      Makes rules (fold .rightward left parser)
        (expression ((Precedence.ofKind parser.current.kind).rank - 1) parser.advance)
  | call {left : Expr} {parser : Parser} (notClosed : parser.peek.kind ≠ .rightParen) :
      Makes rules (fold .call left parser) (arguments parser.advance)
  | argument {parser : Parser} :
      Makes rules (arguments parser) (expression Precedence.lowest.rank parser)
  | nextArgument {parser : Parser} {first : Expr}
      (read : (parser.expression rules Precedence.lowest.rank).result = some first)
      (comma : (parser.expression rules Precedence.lowest.rank).parser.peek.kind = .comma) :
      Makes rules (arguments parser)
        (arguments (parser.expression rules Precedence.lowest.rank).parser.advance.advance)

/-- Whether a call is made on the way of another one, or is that one. -/
def Reaches (rules : Rules) : Call → Call → Prop := Relation.ReflTransGen (Makes rules)

/-! ## Levels -/

/-- Whether a call keeps to the levels: its bound is no lower than the loosest one,
and an operator that is folded has one. -/
def Levelled : Call → Prop
  | expression bound _ | climb bound _ _ => Precedence.lowest.rank ≤ bound
  | fold _ _ parser => (Precedence.ofOperator? parser.current.kind).isSome
  | _ => True

/-- What binds tighter than the loosest level is an operator. -/
theorem isSome_of_lowest_lt {kind : TokenKind}
    (tighter : Precedence.lowest.rank < (Precedence.ofKind kind).rank) :
    (Precedence.ofOperator? kind).isSome := by
  by_contra noLevel
  rw [Option.not_isSome_iff_eq_none] at noLevel
  rw [Precedence.ofKind, noLevel] at tighter
  exact absurd tighter (by decide)

/-- The bound below the level of an operator is no lower than the loosest level. -/
theorem lowest_le_of_isSome {kind : TokenKind} (level : (Precedence.ofOperator? kind).isSome) :
    Precedence.lowest.rank ≤ (Precedence.ofKind kind).rank - 1 := by
  cases kind <;> first | decide | contradiction

/-- What a call makes keeps to the levels if the call does. -/
theorem Makes.levelled {call next : Call} (made : Makes rules call next)
    (levelled : call.Levelled) : next.Levelled := by
  cases made with
  | letValue | returnValue | alone | argument => exact Int.le_refl _
  | climb => exact levelled
  | climbOn => exact levelled
  | operand => exact (by decide : Precedence.lowest.rank ≤ Precedence.prefixed.rank)
  | fold _ tighter _ => exact isSome_of_lowest_lt (Int.lt_of_le_of_lt levelled tighter)
  | leftward => exact Precedence.rank_lowest_le _
  | rightward => exact lowest_le_of_isSome levelled
  | _ => trivial

theorem Reaches.levelled {call last : Call} (reaches : call.Reaches rules last)
    (levelled : call.Levelled) : last.Levelled := by
  induction reaches with
  | refl => exact levelled
  | tail _ made inductionHypothesis => exact made.levelled inductionHypothesis

/-! ## Chains of calls end -/

/-- How much is left for a call to do: the tokens ahead, and with as many tokens
the place of the function in the order in which functions call one another. -/
def weight : Call → Nat
  | program parser => 16 * parser.remaining + 9
  | statement parser => 16 * parser.remaining + 8
  | letStatement parser => 16 * parser.remaining + 7
  | returnStatement parser => 16 * parser.remaining + 7
  | expressionStatement parser => 16 * parser.remaining + 7
  | arguments parser => if parser.remaining = 0 then 1 else 16 * parser.remaining + 6
  | expression _ parser => if parser.remaining = 0 then 0 else 16 * parser.remaining + 5
  | prefixed parser => 16 * parser.remaining + 4
  | climb _ _ parser => 16 * parser.remaining + 3
  | fold _ _ parser => 16 * parser.remaining + 2

/-- At the end of a text a climb has no rule to go on with, or a bound that keeps
it from going on. -/
theorem remaining_pos_of_climb {bound : Int} {left : Expr} {parser : Parser} {rule : InfixRule}
    (ends : rules.infixRule .eof = none ∨ (climb bound left parser).Levelled)
    (tighter : bound < (Precedence.ofKind parser.peek.kind).rank)
    (ruleEq : rules.infixRule parser.peek.kind = some rule) : 0 < parser.remaining := by
  by_contra spent
  have isEof : parser.peek.kind = .eof := by
    by_contra notEof
    exact spent (Nat.lt_of_lt_of_le Nat.zero_lt_two (Parser.two_le_remaining_of_peek notEof))
  rw [isEof] at tighter ruleEq
  rcases ends with noRule | levelled
  · rw [noRule] at ruleEq
    contradiction
  · exact absurd (Int.lt_of_le_of_lt levelled tighter) (Int.lt_irrefl _)

/-- So the stop of a climb at the end of a text is not needed there: it folds and goes
on as it does anywhere else. -/
theorem climb_eq_without_stop {bound : Int} {left : Expr} {parser : Parser}
    (ends : rules.infixRule .eof = none ∨ (climb bound left parser).Levelled) :
    parser.climb rules bound left =
      if parser.peek.kind = .semicolon ∨ (Precedence.ofKind parser.peek.kind).rank ≤ bound then
        .done left parser
      else
        match rules.infixRule parser.peek.kind with
        | none => .done left parser
        | some rule => (parser.advance.fold rules rule left).andThen fun grown next =>
            next.climb rules bound grown := by
  rw [Parser.climb_eq]
  split
  · rfl
  · next open? =>
      rw [not_or, Int.not_le] at open?
      cases ruleEq : rules.infixRule parser.peek.kind with
      | none => rfl
      | some rule =>
          have ahead := remaining_pos_of_climb ends open?.2 ruleEq
          exact if_neg (Nat.ne_of_gt ahead)

/-- An expression opens with a token that is ahead. -/
theorem weight_expression {parser : Parser} {opened : Opening} (bound : Int)
    (opens : Opening.ofKind? parser.current.kind = some opened) :
    (expression bound parser).weight = 16 * parser.remaining + 5 :=
  if_neg (Nat.ne_of_gt (Parser.remaining_pos_of_opening opens))

theorem weight_expression_le (bound : Int) (parser : Parser) :
    (expression bound parser).weight ≤ 16 * parser.remaining + 5 := by
  simp only [weight]
  split <;> omega

theorem weight_expression_advance_lt (bound : Int) (parser : Parser) :
    (expression bound parser.advance).weight < 16 * parser.remaining + 2 := by
  simp only [weight, Parser.advance_remaining]
  split <;> omega

theorem weight_arguments_advance_lt (parser : Parser) :
    (arguments parser.advance).weight < 16 * parser.remaining + 2 := by
  simp only [weight, Parser.advance_remaining]
  split <;> omega

/-- A call that is made weighs less, unless the mark of the end is folded. -/
theorem Makes.weight_lt {call next : Call} (made : Makes rules call next)
    (ends : rules.infixRule .eof = none ∨ call.Levelled) : next.weight < call.weight := by
  cases made with
  | @nextStatement parser inside =>
      have ahead := Parser.remaining_pos_of_not_atEnd inside
      have behind := parser.statement_remaining_le rules
      simp only [weight, Parser.advance_remaining]
      omega
  | @letValue parser named assigned name sign =>
      have afterName := Parser.expect_remaining_le name
      have afterSign := Parser.expect_remaining_le sign
      have value := weight_expression_advance_lt Precedence.lowest.rank assigned
      simp only [weight] at value ⊢
      omega
  | @returnValue parser =>
      have value := weight_expression_advance_lt Precedence.lowest.rank parser
      simp only [weight] at value ⊢
      omega
  | @alone parser =>
      have value := weight_expression_le Precedence.lowest.rank parser
      simp only [weight] at value ⊢
      omega
  | @prefixed bound parser _ opens =>
      rw [weight_expression bound opens]
      simp [weight]
  | @climb bound parser opened left _ opens _ =>
      have behind := parser.enter.opening_remaining_le rules opened
      rw [weight_expression bound opens]
      simp only [weight]
      rw [Parser.enter_remaining] at behind
      omega
  | @operand parser =>
      have value := weight_expression_advance_lt Precedence.prefixed.rank parser
      simp only [weight] at value ⊢
      omega
  | fold =>
      simp only [weight, Parser.advance_remaining]
      omega
  | @climbOn bound left grown parser rule _ tighter ruleEq _ =>
      have ahead := remaining_pos_of_climb ends tighter ruleEq
      have behind := parser.advance.fold_remaining_le rules rule left
      simp only [weight]
      rw [Parser.advance_remaining] at behind
      omega
  | leftward => exact weight_expression_advance_lt _ _
  | rightward => exact weight_expression_advance_lt _ _
  | call => exact weight_arguments_advance_lt _
  | @argument parser =>
      simp only [weight]
      split <;> omega
  | @nextArgument parser first read comma =>
      have behind := parser.expression_remaining_le rules Precedence.lowest.rank
      have fewer := Parser.advance_advance_remaining_lt comma
      simp only [weight]
      split <;> split <;> omega
  | _ => simp [weight]

/-- A call that keeps to the levels starts no endless chain of calls. -/
theorem Levelled.acc {call : Call} (levelled : call.Levelled) :
    Acc (fun next made => Makes rules made next) call := by
  induction weightEq : call.weight using Nat.strongRecOn generalizing call with
  | ind count inductionHypothesis =>
      refine Acc.intro call fun next made => ?_
      have less := made.weight_lt (.inr levelled)
      exact inductionHypothesis next.weight (weightEq ▸ less) (made.levelled levelled) rfl

/-- Where the mark of the end is never folded, no chain of calls is endless. -/
theorem wellFounded_makes (noRule : rules.infixRule .eof = none) :
    WellFounded fun next made => Makes rules made next :=
  Subrelation.wf (fun made => made.weight_lt (.inl noRule)) (measure weight).wf

end Call

end PrattSyntax
