import PrattSyntax.Parser.Expression

/-!
# Induction over calls

The functions that read an expression call one another with fewer tokens ahead,
or with as many and a smaller task. A property of all of them holds if every
function has it under the assumption that the functions it calls do.
-/

namespace PrattSyntax.Parser

theorem opening_remaining_le (rules : Rules) (opened : Opening) (parser : Parser) :
    (parser.opening rules opened).parser.remaining ≤ parser.remaining :=
  (readOpening rules opened parser).property

theorem fold_remaining_le (rules : Rules) (rule : InfixRule) (left : Expr) (parser : Parser) :
    (parser.fold rules rule left).parser.remaining ≤ parser.remaining :=
  (readFold rules rule parser left).property

variable {atExpression : Int → Parser → Prop} {atClimb : Int → Expr → Parser → Prop}
  {atFold : InfixRule → Expr → Parser → Prop} {atArguments : Parser → Prop}

/-- Induction over the calls of the functions that read an expression. An
expression calls for an operand behind a prefix operator and then climbs; a
climb calls for a fold of the next token and goes on behind it; a fold calls for
an operand or for arguments; arguments call for an expression and then for more
arguments. What is called behind something read has no more tokens ahead. -/
theorem reading_induction
    (expressionCase : ∀ bound parser,
      (0 < parser.remaining → atExpression Precedence.prefixed.rank parser.enter.advance) →
      (0 < parser.remaining → ∀ left next, next.remaining ≤ parser.remaining →
        atClimb bound left next) →
      atExpression bound parser)
    (climbCase : ∀ bound left parser,
      (∀ rule, atFold rule left parser.advance) →
      (∀ grown next, next.remaining < parser.remaining → atClimb bound grown next) →
      atClimb bound left parser)
    (foldCase : ∀ rule left parser,
      (∀ bound, atExpression bound parser.advance) →
      atArguments parser.advance →
      atFold rule left parser)
    (argumentsCase : ∀ parser,
      atExpression Precedence.lowest.rank parser →
      (∀ next, next.remaining < parser.remaining → atArguments next) →
      atArguments parser) :
    (∀ bound parser, atExpression bound parser) ∧
      (∀ bound left parser, atClimb bound left parser) ∧
      (∀ rule left parser, atFold rule left parser) ∧ ∀ parser, atArguments parser := by
  suffices byCount : ∀ count parser, parser.remaining = count →
      (∀ bound, atExpression bound parser) ∧ (∀ bound left, atClimb bound left parser) ∧
        (∀ rule left, atFold rule left parser) ∧ atArguments parser by
    exact ⟨fun bound parser => (byCount _ parser rfl).1 bound,
      fun bound left parser => (byCount _ parser rfl).2.1 bound left,
      fun rule left parser => (byCount _ parser rfl).2.2.1 rule left,
      fun parser => (byCount _ parser rfl).2.2.2⟩
  intro count
  induction count using Nat.strongRecOn with
  | ind count inductionHypothesis =>
      cases count with
      | zero =>
          have expressions : ∀ parser, parser.remaining = 0 → ∀ bound,
              atExpression bound parser := fun parser spent bound =>
            expressionCase bound parser (by omega) (by omega)
          have arguments : ∀ parser, parser.remaining = 0 → atArguments parser :=
            fun parser spent =>
              argumentsCase parser (expressions parser spent _) fun next fewer => by omega
          have folds : ∀ parser, parser.remaining = 0 → ∀ rule left,
              atFold rule left parser := fun parser spent rule left =>
            have spentNext : parser.advance.remaining = 0 := by simp [spent]
            foldCase rule left parser (expressions _ spentNext) (arguments _ spentNext)
          intro parser spent
          refine ⟨expressions parser spent, fun bound left => ?_, folds parser spent,
            arguments parser spent⟩
          have spentNext : parser.advance.remaining = 0 := by simp [spent]
          exact climbCase bound left parser (fun rule => folds _ spentNext rule left)
            fun grown next fewer => by omega
      | succ count =>
          have fewer : ∀ next : Parser, next.remaining < count + 1 →
              (∀ bound, atExpression bound next) ∧ (∀ bound left, atClimb bound left next) ∧
                (∀ rule left, atFold rule left next) ∧ atArguments next :=
            fun next less => inductionHypothesis next.remaining less next rfl
          have climbs : ∀ parser, parser.remaining = count + 1 → ∀ bound left,
              atClimb bound left parser := by
            intro parser ahead bound left
            have less : parser.advance.remaining < count + 1 := by simp [ahead]
            apply climbCase bound left parser fun rule => (fewer _ less).2.2.1 rule left
            intro grown next lessNext
            exact (fewer next (by omega)).2.1 bound grown
          have expressions : ∀ parser, parser.remaining = count + 1 → ∀ bound,
              atExpression bound parser := by
            intro parser ahead bound
            have less : parser.enter.advance.remaining < count + 1 := by simp [ahead]
            apply expressionCase bound parser fun _ => (fewer _ less).1 _
            intro _ left next notMore
            rcases Nat.lt_or_eq_of_le notMore with lessNext | sameNext
            · exact (fewer next (by omega)).2.1 bound left
            · exact climbs next (by omega) bound left
          intro parser ahead
          have less : parser.advance.remaining < count + 1 := by simp [ahead]
          refine ⟨expressions parser ahead, climbs parser ahead, fun rule left => ?_, ?_⟩
          · exact foldCase rule left parser (fewer _ less).1 (fewer _ less).2.2.2
          · apply argumentsCase parser (expressions parser ahead _)
            intro next lessNext
            exact (fewer next (by omega)).2.2.2

end PrattSyntax.Parser
