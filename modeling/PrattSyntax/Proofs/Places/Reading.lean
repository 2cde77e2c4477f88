import PrattSyntax.Proofs.Parser.Induction
import PrattSyntax.Proofs.Places.Moved

/-!
# Reading does not look at places

A parser in front of moved tokens reads what it would read in front of the tokens
themselves, moved: it asks a token for its kind and its literal only, and hands
its place on. This holds under all rules that do not look at places either, which
only a caller's own rule could do.
-/

namespace PrattSyntax

/-- Whether a rule folds alike wherever the text stands. -/
def InfixRule.Unplaced : InfixRule → Prop
  | leftward | rightward | trailing | drop | call => True
  | custom fold => ∀ move left input,
      fold (left.moved move) (input.moved move) = (fold left input).moved move

/-- Whether all rules fold alike wherever the text stands. -/
def Rules.Unplaced (rules : Rules) : Prop :=
  ∀ kind rule, rules.infixRule kind = some rule → rule.Unplaced

namespace InfixRule

variable (move : Position → Position)

theorem betweenText_moved (left right : Expr) (operator : Token) :
    betweenText (left.moved move) (operator.moved move) (right.moved move) =
      betweenText left operator right := by
  simp [betweenText]

theorem trailingText_moved (left : Expr) (operator : Token) :
    trailingText (left.moved move) (operator.moved move) = trailingText left operator := by
  simp [trailingText]

theorem callText_moved (callee : Expr) (arguments : List Expr) :
    callText (callee.moved move) (arguments.map (Expr.moved move)) =
      callText callee arguments := by
  have renderEq : Expr.render ∘ Expr.moved move = Expr.render :=
    funext (Expr.render_moved move)
  simp only [callText, Expr.render_moved, List.map_map, renderEq]

end InfixRule

namespace Parser

variable (move : Position → Position) {rules : Rules}

/-! ## Expressions -/

theorem integer_moved (parser : Parser) :
    (parser.moved move).integer = parser.integer.moved move (Expr.moved move) := by
  simp only [integer, current_moved, Token.moved_literal, faultHere_moved]
  split <;> rfl

theorem closeCall_moved (operator : Token) (callee : Expr) (arguments : List Expr)
    (parser : Parser) :
    closeCall (operator.moved move) (callee.moved move) (arguments.map (Expr.moved move))
        (parser.moved move) =
      (closeCall operator callee arguments parser).moved move (Expr.moved move) := by
  simp only [closeCall, expect_moved, InfixRule.callText_moved]
  cases parser.expect .rightParen <;> rfl

theorem applyFold_moved {fold : Expr → TokenStream → Fold}
    (unplaced : (InfixRule.custom fold).Unplaced) (left : Expr) (parser : Parser) :
    (parser.moved move).applyFold fold (left.moved move) =
      (parser.applyFold fold left).moved move (Expr.moved move) := by
  have foldEq : fold (left.moved move) (parser.moved move).input =
      (fold left parser.input).moved move := unplaced move left parser.input
  simp only [applyFold, foldEq]
  simp only [Fold.moved, Outcome.moved, moved, TokenStream.moved, List.map_drop]

/-- What an opening reads moves with it if the operand behind an operator does. -/
theorem opening_moved {opened : Opening} {parser : Parser}
    (operand : (parser.advance.moved move).expression rules Precedence.prefixed.rank =
      (parser.advance.expression rules Precedence.prefixed.rank).moved move (Expr.moved move)) :
    (parser.moved move).opening rules opened =
      (parser.opening rules opened).moved move (Expr.moved move) := by
  rw [opening_eq, opening_eq]
  cases opened with
  | name =>
      simp only [identifier, current_moved]
      rfl
  | number => exact parser.integer_moved move
  | operator =>
      simp only [prefixed_eq, advance_moved, operand, current_moved]
      refine (Outcome.moved_map move ?_ _).symm
      exact fun _ => rfl

theorem reading_moved (unplaced : rules.Unplaced) :
    (∀ bound (parser : Parser), (parser.moved move).expression rules bound =
        (parser.expression rules bound).moved move (Expr.moved move)) ∧
      (∀ bound left (parser : Parser), (parser.moved move).climb rules bound (left.moved move) =
        (parser.climb rules bound left).moved move (Expr.moved move)) ∧
      (∀ (rule : InfixRule) left (parser : Parser), rule.Unplaced →
        (parser.moved move).fold rules rule (left.moved move) =
          (parser.fold rules rule left).moved move (Expr.moved move)) ∧
      ∀ parser : Parser, (parser.moved move).arguments rules =
        (parser.arguments rules).moved move (List.map (Expr.moved move)) := by
  apply reading_induction
  case expressionCase =>
    intro bound parser operand climbs
    rw [expression_eq, expression_eq]
    simp only [depth_moved, current_moved, Token.moved_kind]
    split
    · rw [faultHere_moved, skipExpression_moved]
      rfl
    · split
      · rw [faultHere_moved]
        rfl
      · next opened opens =>
          have ahead := remaining_pos_of_opening opens
          have openingEq : (parser.enter.moved move).opening rules opened =
              (parser.enter.opening rules opened).moved move (Expr.moved move) :=
            opening_moved move (operand ahead)
          rw [enter_moved, openingEq,
            Outcome.moved_move move (fun next => (leave_moved move next).symm)]
          refine congrArg _ (Outcome.moved_andThen move fun left _ => ?_).symm
          exact (climbs ahead left _ (opening_remaining_le rules opened parser.enter)).symm
  case climbCase =>
    intro bound left parser folds climbs
    rw [climb_eq, climb_eq]
    simp only [peek_moved, Token.moved_kind, remaining_moved]
    split
    · rfl
    · split
      · rfl
      · next rule ruleEq =>
          have foldEq := folds rule (unplaced _ _ ruleEq)
          rw [advance_moved, foldEq]
          split
          · rfl
          · next unspent =>
              refine (Outcome.moved_andThen move fun grown _ => (climbs grown _ ?_).symm).symm
              have fewer := fold_remaining_le rules rule left parser.advance
              rw [advance_remaining] at fewer
              omega
  case foldCase =>
    intro rule left parser operand arguments ruleUnplaced
    have between : ∀ right : Expr,
        (Expr.infixed parser.current (InfixRule.betweenText left parser.current right)).moved move =
          .infixed (parser.current.moved move) (InfixRule.betweenText (left.moved move)
            (parser.current.moved move) (right.moved move)) := by
      intro right
      rw [InfixRule.betweenText_moved]
      rfl
    rw [fold_eq, fold_eq]
    simp only [advance_moved, current_moved, peek_moved, Token.moved_kind]
    cases rule with
    | leftward =>
        simp only [operand]
        refine (Outcome.moved_map move ?_ _).symm
        exact between
    | rightward =>
        simp only [operand]
        refine (Outcome.moved_map move ?_ _).symm
        exact between
    | trailing =>
        simp only [InfixRule.trailingText_moved]
        rfl
    | drop => rfl
    | call =>
        have callTextEq := InfixRule.callText_moved move left []
        rw [List.map_nil] at callTextEq
        simp only [callTextEq, arguments]
        split
        · rfl
        · refine (Outcome.moved_andThen move fun value _ => ?_).symm
          exact (closeCall_moved move parser.current left value _).symm
    | custom fold => exact applyFold_moved move ruleUnplaced left parser
  case argumentsCase =>
    intro parser first more
    rw [arguments_eq, arguments_eq, first]
    refine (Outcome.moved_andThen move fun value _ => ?_).symm
    simp only [peek_moved, Token.moved_kind, advance_moved]
    split
    · next comma =>
        have fewer := expression_remaining_le rules Precedence.lowest.rank parser
        have less := advance_advance_remaining_lt comma
        rw [more _ (by omega)]
        refine Outcome.moved_map move ?_ _
        exact fun _ => rfl
    · rfl

theorem expression_moved (unplaced : rules.Unplaced) (bound : Int) (parser : Parser) :
    (parser.moved move).expression rules bound =
      (parser.expression rules bound).moved move (Expr.moved move) :=
  (reading_moved move unplaced).1 bound parser

/-! ## Statements -/

theorem finishStatement_moved {build placed : Option Expr → Statement}
    (same : ∀ value, (build value).moved move = placed (value.map (Expr.moved move)))
    (value : Outcome Expr) :
    (finishStatement build value).moved move (Statement.moved move) =
      finishStatement placed (value.moved move (Expr.moved move)) := by
  simp only [finishStatement, Outcome.moved, passSemicolon_moved, Option.map_some, same]

theorem letStatement_moved (unplaced : rules.Unplaced) (parser : Parser) :
    (parser.moved move).letStatement rules =
      (parser.letStatement rules).moved move (Statement.moved move) := by
  unfold letStatement
  rw [expect_moved]
  cases parser.expect .ident with
  | error fault =>
      simp only [synchronize_moved]
      rfl
  | ok named =>
      simp only [expect_moved]
      cases named.expect .assign with
      | error fault =>
          simp only [synchronize_moved]
          rfl
      | ok assigned =>
          simp only [advance_moved, current_moved, expression_moved move unplaced]
          exact (finishStatement_moved move (fun _ => rfl) _).symm

theorem returnStatement_moved (unplaced : rules.Unplaced) (parser : Parser) :
    (parser.moved move).returnStatement rules =
      (parser.returnStatement rules).moved move (Statement.moved move) := by
  unfold returnStatement
  simp only [peek_moved, Token.moved_kind, current_moved, advance_moved]
  split
  · rfl
  · split
    · rfl
    · rw [expression_moved move unplaced]
      exact (finishStatement_moved move (fun _ => rfl) _).symm

theorem statement_moved (unplaced : rules.Unplaced) (parser : Parser) :
    (parser.moved move).statement rules =
      (parser.statement rules).moved move (Statement.moved move) := by
  unfold statement
  simp only [current_moved, Token.moved_kind]
  split
  · exact letStatement_moved move unplaced parser
  · split
    · exact returnStatement_moved move unplaced parser
    · rw [expressionStatement, expression_moved move unplaced, current_moved]
      exact (finishStatement_moved move (fun _ => rfl) _).symm

/-! ## Programs -/

theorem statements_moved (unplaced : rules.Unplaced) (parser : Parser) :
    (parser.moved move).statements rules =
      (parser.statements rules).map (Outcome.moved move (Statement.moved move)) := by
  induction parser using statements.induct rules with
  | case1 parser ending =>
      rw [statements, statements, dif_pos ending, dif_pos (by simpa using ending)]
      rfl
  | case2 parser notEnding _ inductionHypothesis =>
      rw [statements, statements, dif_neg notEnding, dif_neg (by simpa using notEnding),
        statement_moved move unplaced, List.map_cons, ← inductionHypothesis, ← advance_moved]
      rfl

/-- A program behind moved tokens is the program behind the tokens, moved. -/
theorem program_moved (unplaced : rules.Unplaced) (parser : Parser) :
    (parser.moved move).program rules = (parser.program rules).moved move := by
  simp only [program, statements_moved move unplaced, Reading.moved, Program.moved,
    Reading.mk.injEq, Program.mk.injEq]
  generalize parser.statements rules = outcomes
  induction outcomes with
  | nil => exact ⟨rfl, rfl⟩
  | cons outcome outcomes inductionHypothesis =>
      constructor
      · cases resultEq : outcome.result with
        | none => simpa [Outcome.moved, resultEq] using inductionHypothesis.1
        | some statement => simpa [Outcome.moved, resultEq] using inductionHypothesis.1
      · simpa [Outcome.moved] using inductionHypothesis.2

end Parser

end PrattSyntax
