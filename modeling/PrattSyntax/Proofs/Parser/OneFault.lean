import PrattSyntax.Parser.Program
import PrattSyntax.Proofs.Parser.Induction

/-!
# One fault for one failure

A reading function either reads something and finds no fault, or it reads
nothing and finds exactly one. This is kept by every way in which readings are
put together, so it holds of expressions, and the faults of a program count the
statements that were not read in full.
-/

namespace PrattSyntax

/-! ## Settled outcomes -/

namespace Outcome

variable {α β : Type}

/-- Something was read without a fault, or nothing was read and one fault says
why. -/
def Settled (outcome : Outcome α) : Prop :=
  (∃ value, outcome.result = some value ∧ outcome.faults = []) ∨
    (outcome.result = none ∧ ∃ fault, outcome.faults = [fault])

theorem settled_done (value : α) (parser : Parser) : (done value parser).Settled :=
  .inl ⟨value, rfl, rfl⟩

theorem settled_failed (fault : Fault) (parser : Parser) :
    (failed fault parser : Outcome α).Settled :=
  .inr ⟨rfl, fault, rfl⟩

theorem Settled.map {outcome : Outcome α} (settled : outcome.Settled) (function : α → β) :
    (outcome.map function).Settled := by
  rcases settled with ⟨value, resultEq, faultsEq⟩ | ⟨resultEq, fault, faultsEq⟩
  · exact .inl ⟨function value, congrArg (Option.map function) resultEq, faultsEq⟩
  · exact .inr ⟨congrArg (Option.map function) resultEq, fault, faultsEq⟩

theorem Settled.move {outcome : Outcome α} (settled : outcome.Settled) (step : Parser → Parser) :
    (outcome.move step).Settled :=
  settled

/-- Reading on behind something settled is settled if reading on is. -/
theorem Settled.andThen {outcome : Outcome α} (settled : outcome.Settled)
    {next : α → Parser → Outcome β}
    (nextSettled : ∀ value, outcome.result = some value → (next value outcome.parser).Settled) :
    (outcome.andThen next).Settled := by
  rcases settled with ⟨value, resultEq, faultsEq⟩ | ⟨resultEq, fault, faultsEq⟩
  · have following := nextSettled value resultEq
    simpa only [Outcome.andThen, resultEq, after, faultsEq, List.nil_append] using following
  · exact .inr ⟨by simp only [Outcome.andThen, resultEq], fault, by
      simp only [Outcome.andThen, resultEq, faultsEq]⟩

/-- Something is read exactly when there is no fault. -/
theorem Settled.faults_eq_nil_iff {outcome : Outcome α} (settled : outcome.Settled) :
    outcome.faults = [] ↔ ∃ value, outcome.result = some value := by
  rcases settled with ⟨value, resultEq, faultsEq⟩ | ⟨resultEq, fault, faultsEq⟩
  · simp [resultEq, faultsEq]
  · simp [resultEq, faultsEq]

end Outcome

/-! ## Expressions -/

/-- Whether a rule finds a fault whenever it folds nothing. -/
def InfixRule.Reports : InfixRule → Prop
  | leftward | rightward | trailing | call => True
  | drop | custom _ => False

/-- Whether all rules find a fault whenever they fold nothing. -/
def Rules.Report (rules : Rules) : Prop :=
  ∀ kind rule, rules.infixRule kind = some rule → rule.Reports

/-- Sums that lean to the left, and calls. -/
def Rules.sumsAndCalls : Rules where
  infixRule
    | .plus => some .leftward
    | .leftParen => some .call
    | _ => none

theorem Rules.sumsAndCalls_report : sumsAndCalls.Report := by
  intro kind rule ruleEq
  cases kind <;> cases ruleEq <;> trivial

namespace Parser

variable {rules : Rules}

theorem integer_settled (parser : Parser) : parser.integer.Settled := by
  unfold integer
  split
  · exact Outcome.settled_done _ _
  · exact Outcome.settled_failed _ _

theorem closeCall_settled (operator : Token) (callee : Expr) (arguments : List Expr)
    (parser : Parser) : (closeCall operator callee arguments parser).Settled := by
  unfold closeCall
  split
  · exact Outcome.settled_done _ _
  · exact Outcome.settled_failed _ _

/-- What an opening reads is settled if the operand behind an operator is. -/
theorem opening_settled {opened : Opening} {parser : Parser}
    (operand : (parser.advance.expression rules Precedence.prefixed.rank).Settled) :
    (parser.opening rules opened).Settled := by
  rw [opening_eq]
  cases opened with
  | name => exact Outcome.settled_done _ _
  | number => exact parser.integer_settled
  | operator =>
      simp only [prefixed_eq]
      exact operand.map _

theorem reading_settled (report : rules.Report) :
    (∀ bound (parser : Parser), (parser.expression rules bound).Settled) ∧
      (∀ bound left (parser : Parser), (parser.climb rules bound left).Settled) ∧
      (∀ (rule : InfixRule) left (parser : Parser), rule.Reports →
        (parser.fold rules rule left).Settled) ∧
      ∀ parser : Parser, (parser.arguments rules).Settled := by
  apply reading_induction
  case expressionCase =>
    intro bound parser operand climbs
    rw [expression_eq]
    split
    · exact Outcome.settled_failed _ _
    · split
      · exact Outcome.settled_failed _ _
      · next opened opens =>
          have ahead := remaining_pos_of_opening opens
          have openingSettled : (parser.enter.opening rules opened).Settled :=
            opening_settled (operand ahead)
          exact (openingSettled.andThen fun left _ =>
            climbs ahead left _ (opening_remaining_le rules opened parser.enter)).move _
  case climbCase =>
    intro bound left parser folds climbs
    rw [climb_eq]
    split
    · exact Outcome.settled_done _ _
    · split
      · exact Outcome.settled_done _ _
      · next rule ruleEq =>
          have foldSettled := folds rule (report _ _ ruleEq)
          split
          · exact foldSettled
          · next unspent =>
              refine foldSettled.andThen fun grown _ => climbs grown _ ?_
              have fewer := fold_remaining_le rules rule left parser.advance
              rw [advance_remaining] at fewer
              omega
  case foldCase =>
    intro rule left parser operand arguments reports
    rw [fold_eq]
    cases rule with
    | leftward => exact (operand _).map _
    | rightward => exact (operand _).map _
    | trailing => exact Outcome.settled_done _ _
    | drop => exact reports.elim
    | call =>
        simp only
        split
        · exact Outcome.settled_done _ _
        · exact arguments.andThen fun _ _ => closeCall_settled _ _ _ _
    | custom _ => exact reports.elim
  case argumentsCase =>
    intro parser first more
    rw [arguments_eq]
    refine first.andThen fun value _ => ?_
    split
    · next comma =>
        have fewer := expression_remaining_le rules Precedence.lowest.rank parser
        have less := advance_advance_remaining_lt comma
        exact (more _ (by omega)).map _
    · exact Outcome.settled_done _ _

theorem expression_settled (report : rules.Report) (bound : Int) (parser : Parser) :
    (parser.expression rules bound).Settled :=
  (reading_settled report).1 bound parser

/-! ## Statements -/

/-- Whether the statement at a parser is given up, or lacks the value it should
have. A `return` should have one unless a semicolon or the end follows it. -/
def broken (rules : Rules) (parser : Parser) : Bool :=
  match (parser.statement rules).result with
  | none => true
  | some (.binding _ _ value) => value.isNone
  | some (.expression _ value) => value.isNone
  | some (.returning _ value) =>
      value.isNone && parser.peek.kind ≠ .semicolon && parser.peek.kind ≠ .eof

/-- The parsers at which the statements from here on are read. -/
def statementCalls (rules : Rules) (parser : Parser) : List Parser :=
  if _ending : parser.atEnd then []
  else parser :: (parser.statement rules).parser.advance.statementCalls rules
termination_by parser.remaining
decreasing_by
  have ahead := remaining_pos_of_not_atEnd _ending
  have behind := parser.statement_remaining_le rules
  rw [advance_remaining]
  omega

theorem statements_eq_map_statementCalls (rules : Rules) (parser : Parser) :
    parser.statements rules = (parser.statementCalls rules).map (statement rules) := by
  induction parser using statements.induct rules with
  | case1 parser ending => rw [statements, statementCalls, dif_pos ending, dif_pos ending]; rfl
  | case2 parser notEnding _ inductionHypothesis =>
      rw [statements, statementCalls, dif_neg notEnding, dif_neg notEnding, List.map_cons]
      exact congrArg _ inductionHypothesis

theorem finishStatement_faults_length {build : Option Expr → Statement} {value : Outcome Expr}
    (settled : value.Settled) :
    (finishStatement build value).faults.length = value.result.isNone.toNat := by
  rcases settled with ⟨expr, resultEq, faultsEq⟩ | ⟨resultEq, fault, faultsEq⟩
  · simp [finishStatement, resultEq, faultsEq]
  · simp [finishStatement, resultEq, faultsEq]

theorem letStatement_faults_length (report : rules.Report) {parser : Parser}
    (opens : parser.current.kind = .letWord) :
    (parser.letStatement rules).faults.length = (parser.broken rules).toNat := by
  unfold broken
  rw [statement_eq_letStatement rules opens]
  unfold letStatement
  split
  · rfl
  · split
    · rfl
    · exact finishStatement_faults_length (expression_settled report _ _)

theorem returnStatement_faults_length (report : rules.Report) {parser : Parser}
    (opens : parser.current.kind = .returnWord) :
    (parser.returnStatement rules).faults.length = (parser.broken rules).toNat := by
  unfold broken
  rw [statement_eq_returnStatement rules opens]
  unfold returnStatement
  split
  · next closed => simp [Outcome.done, closed]
  · next notClosed =>
      split
      · next ended => simp [Outcome.done, ended]
      · next notEnded =>
          rw [finishStatement_faults_length (expression_settled report _ _)]
          simp [finishStatement, notClosed, notEnded]

theorem expressionStatement_faults_length (report : rules.Report) {parser : Parser}
    (notLet : parser.current.kind ≠ .letWord) (notReturn : parser.current.kind ≠ .returnWord) :
    (parser.expressionStatement rules).faults.length = (parser.broken rules).toNat := by
  unfold broken
  rw [statement_eq_expressionStatement rules notLet notReturn]
  exact finishStatement_faults_length (expression_settled report _ _)

theorem statement_faults_length (report : rules.Report) (parser : Parser) :
    (parser.statement rules).faults.length = (parser.broken rules).toNat := by
  by_cases isLet : parser.current.kind = .letWord
  · rw [statement_eq_letStatement rules isLet]
    exact letStatement_faults_length report isLet
  · by_cases isReturn : parser.current.kind = .returnWord
    · rw [statement_eq_returnStatement rules isReturn]
      exact returnStatement_faults_length report isReturn
    · rw [statement_eq_expressionStatement rules isLet isReturn]
      exact expressionStatement_faults_length report isLet isReturn

/-! ## Programs -/

theorem program_faults_length (report : rules.Report) (parser : Parser) :
    (parser.program rules).faults.length =
      (parser.statementCalls rules).countP (broken rules) := by
  have faultsEq : (parser.program rules).faults =
      (parser.statements rules).flatMap Outcome.faults := rfl
  rw [faultsEq, statements_eq_map_statementCalls, List.length_flatMap, List.map_map]
  induction parser.statementCalls rules with
  | nil => rfl
  | cons call calls inductionHypothesis =>
      rw [List.map_cons, List.sum_cons, inductionHypothesis, List.countP_cons]
      have callLength := statement_faults_length report call
      rw [Function.comp_apply, callLength, Nat.add_comm]
      cases call.broken rules <;> rfl

/-- Every failure of a parser is told by exactly one fault: an expression is read
without a fault or not read with one, a statement has one fault if it is broken
and none otherwise, and a program has as many faults as broken statements. -/
theorem one_fault_for_each_failure (report : rules.Report) :
    (∀ bound (parser : Parser), (parser.expression rules bound).Settled) ∧
      (∀ parser : Parser, (parser.statement rules).faults.length ≤ 1 ∧
        ((parser.statement rules).faults.length = 1 ↔ parser.broken rules)) ∧
      ∀ parser : Parser, (parser.program rules).faults.length =
        (parser.statementCalls rules).countP (broken rules) := by
  refine ⟨expression_settled report, fun parser => ?_, program_faults_length report⟩
  rw [statement_faults_length report]
  cases parser.broken rules <;> simp

/-- Sums and calls are read by rules that report. A text of three statements with
a sum without its right operand, a `let` without a name and a call without
arguments has three faults. -/
theorem one_fault_for_each_failure_sumsAndCalls :
    Rules.sumsAndCalls.Report ∧
      ((ofBytes "f(1+;let;return f(".toUTF8.toList).program .sumsAndCalls).faults.length =
        ((ofBytes "f(1+;let;return f(".toUTF8.toList).statementCalls .sumsAndCalls).countP
          (broken .sumsAndCalls) ∧
      ((ofBytes "f(1+;let;return f(".toUTF8.toList).program .sumsAndCalls).faults.length = 3 :=
  ⟨Rules.sumsAndCalls_report,
    (one_fault_for_each_failure Rules.sumsAndCalls_report).2.2 _, by decide +kernel⟩

end Parser

end PrattSyntax
