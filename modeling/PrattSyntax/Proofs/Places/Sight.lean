import PrattSyntax.Parser.Program
import PrattSyntax.Proofs.Parser.Progress

/-!
# Faults at tokens in sight

The rules that come with the parser hold faults against tokens only: every fault
that is found has the place of a token which the parser had in sight, a token ahead
or the mark of the end. A caller's own rule may hold a fault against any place.
-/

namespace PrattSyntax

/-- Whether a rule is one of those that come with the parser. -/
def InfixRule.BuiltIn : InfixRule → Prop
  | leftward | rightward | trailing | drop | call => True
  | custom _ => False

/-- Whether no rule is a caller's own. -/
def Rules.BuiltIn (rules : Rules) : Prop :=
  ∀ kind rule, rules.infixRule kind = some rule → rule.BuiltIn

namespace Outcome

variable {α β : Type} {tokens : List Token}

/-- Whether every fault of an outcome has the place of one of a list of tokens. -/
def Within (tokens : List Token) (outcome : Outcome α) : Prop :=
  ∀ fault ∈ outcome.faults, ∃ token ∈ tokens, fault.span = token.span

theorem within_done (value : α) (parser : Parser) : (done value parser).Within tokens :=
  fun _ faultMem => absurd faultMem List.not_mem_nil

theorem within_failed {fault : Fault} {token : Token} (tokenMem : token ∈ tokens)
    (spanEq : fault.span = token.span) (parser : Parser) :
    (failed fault parser : Outcome α).Within tokens := by
  intro other otherMem
  rw [List.mem_singleton.mp otherMem]
  exact ⟨token, tokenMem, spanEq⟩

theorem Within.map {outcome : Outcome α} (within : outcome.Within tokens) (function : α → β) :
    (outcome.map function).Within tokens := within

theorem Within.move {outcome : Outcome α} (within : outcome.Within tokens)
    (step : Parser → Parser) : (outcome.move step).Within tokens := within

/-- What is within some tokens is within more of them. -/
theorem Within.mono {outcome : Outcome α} {more : List Token} (within : outcome.Within tokens)
    (subset : tokens ⊆ more) : outcome.Within more := by
  intro fault faultMem
  obtain ⟨token, tokenMem, spanEq⟩ := within fault faultMem
  exact ⟨token, subset tokenMem, spanEq⟩

theorem Within.andThen {outcome : Outcome α} (within : outcome.Within tokens)
    {next : α → Parser → Outcome β}
    (nextWithin : ∀ value, outcome.result = some value →
      (next value outcome.parser).Within tokens) :
    (outcome.andThen next).Within tokens := by
  cases resultEq : outcome.result with
  | none =>
      simp only [Outcome.andThen, resultEq]
      exact within
  | some value =>
      simp only [Outcome.andThen, resultEq]
      exact List.forall_mem_append.mpr ⟨within, nextWithin value resultEq⟩

end Outcome

namespace Parser

variable {rules : Rules}

/-! ## Expressions -/

theorem current_mem_window (parser : Parser) : parser.current ∈ parser.window := by
  obtain ⟨behind, windowEq, _⟩ := parser.exists_window_cons
  rw [windowEq]
  exact List.mem_cons_self

theorem advance_window_subset (parser : Parser) : parser.advance.window ⊆ parser.window :=
  parser.follows_advance.window.subset

theorem within_faultHere {α : Type} (parser next : Parser) (cause : Cause) :
    (Outcome.failed (parser.faultHere cause) next : Outcome α).Within parser.window :=
  Outcome.within_failed parser.current_mem_window rfl next

theorem within_unexpectedPeek {α : Type} (parser next : Parser) (required : TokenKind) :
    (Outcome.failed (parser.unexpectedPeek required) next : Outcome α).Within parser.window :=
  Outcome.within_failed (parser.advance_window_subset parser.advance.current_mem_window) rfl next

theorem integer_within (parser : Parser) : parser.integer.Within parser.window := by
  unfold integer
  split
  · exact Outcome.within_done _ _
  · exact parser.within_faultHere _ _

/-- A token that is required and not there is held against the one in its place. -/
theorem eq_unexpectedPeek_of_expect {parser : Parser} {required : TokenKind} {fault : Fault}
    (missed : parser.expect required = .error fault) : fault = parser.unexpectedPeek required := by
  unfold expect at missed
  split at missed
  · contradiction
  · exact (Except.error.inj missed).symm

theorem closeCall_within (operator : Token) (callee : Expr) (arguments : List Expr)
    (parser : Parser) : (closeCall operator callee arguments parser).Within parser.window := by
  unfold closeCall
  split
  · exact Outcome.within_done _ _
  · next fault missed =>
      rw [eq_unexpectedPeek_of_expect missed]
      exact parser.within_unexpectedPeek _ _

theorem opening_within {opened : Opening} {parser : Parser}
    (operand : (parser.advance.expression rules Precedence.prefixed.rank).Within
      parser.advance.window) :
    (parser.opening rules opened).Within parser.window := by
  rw [opening_eq]
  cases opened with
  | name => exact Outcome.within_done _ _
  | number => exact parser.integer_within
  | operator =>
      simp only [prefixed_eq]
      exact (operand.mono parser.advance_window_subset).map _

theorem reading_within (builtIn : rules.BuiltIn) :
    (∀ bound (parser : Parser), (parser.expression rules bound).Within parser.window) ∧
      (∀ bound left (parser : Parser),
        (parser.climb rules bound left).Within parser.window) ∧
      (∀ (rule : InfixRule) left (parser : Parser), rule.BuiltIn →
        (parser.fold rules rule left).Within parser.window) ∧
      ∀ parser : Parser, (parser.arguments rules).Within parser.window := by
  obtain ⟨_, _, followsFold, followsArguments⟩ := reading_follows rules
  apply reading_induction
  case expressionCase =>
    intro bound parser operand climbs
    rw [expression_eq]
    split
    · exact parser.within_faultHere _ _
    · split
      · exact parser.within_faultHere _ _
      · next opened opens =>
          have ahead := remaining_pos_of_opening opens
          have follows : parser.enter.Follows (parser.enter.opening rules opened).parser :=
            follows_opening (follows_expression rules _ _)
          have opening : (parser.enter.opening rules opened).Within parser.window :=
            opening_within (operand ahead)
          refine (opening.andThen fun left _ => ?_).move _
          have climb := climbs ahead left _ (opening_remaining_le rules opened parser.enter)
          exact climb.mono follows.window.subset
  case climbCase =>
    intro bound left parser folds climbs
    rw [climb_eq]
    split
    · exact Outcome.within_done _ _
    · split
      · exact Outcome.within_done _ _
      · next rule ruleEq =>
          have fold := (folds rule (builtIn _ _ ruleEq)).mono parser.advance_window_subset
          split
          · exact fold
          · next unspent =>
              refine fold.andThen fun grown _ => ?_
              have fewer := fold_remaining_le rules rule left parser.advance
              rw [advance_remaining] at fewer
              have follows := parser.follows_advance.trans (followsFold rule left parser.advance)
              exact (climbs grown _ (by omega)).mono follows.window.subset
  case foldCase =>
    intro rule left parser operand arguments ruleBuiltIn
    rw [fold_eq]
    cases rule with
    | leftward => exact ((operand _).mono parser.advance_window_subset).map _
    | rightward => exact ((operand _).mono parser.advance_window_subset).map _
    | trailing => exact Outcome.within_done _ _
    | drop => exact fun _ faultMem => absurd faultMem List.not_mem_nil
    | call =>
        simp only
        split
        · exact Outcome.within_done _ _
        · refine (arguments.mono parser.advance_window_subset).andThen fun value _ => ?_
          have follows := parser.follows_advance.trans (followsArguments parser.advance)
          exact (closeCall_within _ _ _ _).mono follows.window.subset
    | custom fold => exact ruleBuiltIn.elim
  case argumentsCase =>
    intro parser first more
    rw [arguments_eq]
    refine first.andThen fun value _ => ?_
    split
    · next comma =>
        have fewer := expression_remaining_le rules Precedence.lowest.rank parser
        have less := advance_advance_remaining_lt comma
        have follows := (follows_expression rules Precedence.lowest.rank parser).trans
          (follows_advance_advance _)
        exact ((more _ (by omega)).mono follows.window.subset).map _
    · exact Outcome.within_done _ _

theorem expression_within (builtIn : rules.BuiltIn) (bound : Int) (parser : Parser) :
    (parser.expression rules bound).Within parser.window :=
  (reading_within builtIn).1 bound parser

/-! ## Statements and programs -/

theorem value_within (builtIn : rules.BuiltIn) {parser start : Parser}
    (follows : parser.Follows start) (build : Option Expr → Statement) (bound : Int) :
    (finishStatement build (start.expression rules bound)).Within parser.window :=
  (expression_within builtIn bound start).mono follows.window.subset

theorem statement_within (builtIn : rules.BuiltIn) (parser : Parser) :
    (parser.statement rules).Within parser.window := by
  have reads := parser.statement_reads rules
  generalize parser.statement rules = outcome at reads ⊢
  cases reads with
  | nameless isLet missed =>
      rw [eq_unexpectedPeek_of_expect missed]
      exact parser.within_unexpectedPeek _ _
  | signless isLet isName missed =>
      rw [eq_unexpectedPeek_of_expect missed]
      exact (parser.advance.within_unexpectedPeek _ _).mono parser.advance_window_subset
  | binding isLet isName isSign =>
      have follows := parser.follows_advance_advance.trans (follows_advance _)
      exact value_within builtIn follows _ _
  | closedReturn isReturn isClose => exact Outcome.within_done _ _
  | lastReturn isReturn isEnd => exact Outcome.within_done _ _
  | returning isReturn => exact value_within builtIn parser.follows_advance _ _
  | alone notLet notReturn => exact value_within builtIn (.refl parser) _ _

/-- Every fault of a program has the place of a token that is ahead, or of the mark
of the end. -/
theorem program_faults_within (builtIn : rules.BuiltIn) (parser : Parser) :
    ∀ fault ∈ (parser.program rules).faults, ∃ token ∈ parser.window, fault.span = token.span := by
  suffices outcomes : ∀ outcome ∈ parser.statements rules, outcome.Within parser.window by
    intro fault faultMem
    obtain ⟨outcome, outcomeMem, inOutcome⟩ := List.mem_flatMap.mp faultMem
    exact outcomes outcome outcomeMem fault inOutcome
  induction parser using statements.induct rules with
  | case1 parser ending =>
      rw [statements, dif_pos ending]
      exact fun outcome outcomeMem => absurd outcomeMem List.not_mem_nil
  | case2 parser inside _ inductionHypothesis =>
      rw [statements, dif_neg inside]
      refine List.forall_mem_cons.mpr ⟨statement_within builtIn parser, ?_⟩
      intro outcome outcomeMem
      have follows := (parser.follows_statement rules).trans (follows_advance _)
      exact (inductionHypothesis outcome outcomeMem).mono follows.window.subset

end Parser

/-- Every fault that a text is read with has the place of one of its tokens. -/
theorem parse_faults_within (text : List UInt8) :
    ∀ fault ∈ (parse text).faults, ∃ token ∈ tokenize text, fault.span = token.span := by
  have builtIn : ({} : Rules).BuiltIn := by
    intro kind rule ruleEq
    contradiction
  exact Parser.program_faults_within builtIn (.ofBytes text)

end PrattSyntax
