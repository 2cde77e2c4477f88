import PrattSyntax.Proofs.Calls.Relation

/-!
# What rules are asked for

A parser asks for the limit of depth when it begins an expression, and for a rule
when it climbs, for the kind of the next token. Two sets of rules that agree wherever
a call asks read the same and make the same calls. As a program climbs with bounds
from the loosest level up, its rules for kinds without a level are never asked for.
-/

namespace PrattSyntax

/-- Going on behind an outcome depends on what comes next behind the thing read
only. -/
theorem Outcome.andThen_congr {α β : Type} {outcome : Outcome α}
    {first second : α → Parser → Outcome β}
    (same : ∀ value, outcome.result = some value →
      first value outcome.parser = second value outcome.parser) :
    outcome.andThen first = outcome.andThen second := by
  cases resultEq : outcome.result with
  | none => simp only [andThen, resultEq]
  | some value => simp only [andThen, resultEq, same value resultEq]

/-- Whether two sets of rules allow the same expressions that a call begins, and have the
same rule for the next token wherever it climbs on. -/
structure Call.Agrees (rules other : Rules) (call : Call) : Prop where
  limit : ∀ bound parser, call.Reaches rules (.expression bound parser) →
    (rules.maxDepth ≤ parser.depth ↔ other.maxDepth ≤ parser.depth)
  rule : ∀ bound left parser, call.Reaches rules (.climb bound left parser) →
    parser.peek.kind ≠ .semicolon → bound < (Precedence.ofKind parser.peek.kind).rank →
    rules.infixRule parser.peek.kind = other.infixRule parser.peek.kind

variable {rules other : Rules}

theorem Call.Agrees.of_makes {call next : Call} (agrees : call.Agrees rules other)
    (made : Makes rules call next) : next.Agrees rules other :=
  ⟨fun bound parser reaches => agrees.limit bound parser (.head made reaches),
    fun bound left parser reaches => agrees.rule bound left parser (.head made reaches)⟩

namespace Parser

open Call (Agrees)

/-! ## Expressions -/

theorem opening_of_agrees {opened : Opening} {parser : Parser}
    (operand : opened = .operator → parser.advance.expression rules Precedence.prefixed.rank =
      parser.advance.expression other Precedence.prefixed.rank) :
    parser.opening rules opened = parser.opening other opened := by
  rw [opening_eq, opening_eq]
  cases opened with
  | name => rfl
  | number => rfl
  | operator =>
      simp only [prefixed_eq]
      rw [operand rfl]

theorem reading_of_agrees :
    (∀ bound parser, Agrees rules other (.expression bound parser) →
        parser.expression rules bound = parser.expression other bound) ∧
      (∀ bound left parser, Agrees rules other (.climb bound left parser) →
        parser.climb rules bound left = parser.climb other bound left) ∧
      (∀ rule left parser, Agrees rules other (.fold rule left parser) →
        parser.fold rules rule left = parser.fold other rule left) ∧
      ∀ parser, Agrees rules other (.arguments parser) →
        parser.arguments rules = parser.arguments other := by
  apply reading_induction
  case expressionCase =>
    intro bound parser operand climbs agrees
    rw [expression_eq, expression_eq]
    simp only [← agrees.limit bound parser .refl]
    split
    · rfl
    · next allowed =>
        split
        · rfl
        · next opened opens =>
            have ahead := remaining_pos_of_opening opens
            have openingEq : parser.enter.opening rules opened =
                parser.enter.opening other opened := by
              apply opening_of_agrees
              rintro rfl
              exact operand ahead ((agrees.of_makes (.prefixed allowed opens)).of_makes .operand)
            rw [← openingEq]
            refine congrArg _ (Outcome.andThen_congr fun left read => ?_)
            apply climbs ahead left _ (opening_remaining_le rules opened parser.enter)
            exact agrees.of_makes (.climb allowed opens read)
  case climbCase =>
    intro bound left parser folds climbs agrees
    rw [climb_eq, climb_eq]
    split
    · rfl
    · next open? =>
        rw [not_or, Int.not_le] at open?
        obtain ⟨notClosed, tighter⟩ := open?
        rw [← agrees.rule bound left parser .refl notClosed tighter]
        split
        · rfl
        · next rule ruleEq =>
            have foldEq := folds rule (agrees.of_makes (.fold notClosed tighter ruleEq))
            rw [← foldEq]
            split
            · rfl
            · next unspent =>
                refine Outcome.andThen_congr fun grown folded => ?_
                have fewer := fold_remaining_le rules rule left parser.advance
                rw [advance_remaining] at fewer
                apply climbs grown _ (by omega)
                exact agrees.of_makes (.climbOn notClosed tighter ruleEq folded)
  case foldCase =>
    intro rule left parser operand arguments agrees
    rw [fold_eq, fold_eq]
    cases rule with
    | leftward => simp only [operand _ (agrees.of_makes .leftward)]
    | rightward => simp only [operand _ (agrees.of_makes .rightward)]
    | trailing => rfl
    | drop => rfl
    | call =>
        simp only
        split
        · rfl
        · next notClosed => rw [arguments (agrees.of_makes (.call notClosed))]
    | custom fold => rfl
  case argumentsCase =>
    intro parser first more agrees
    rw [arguments_eq, arguments_eq, ← first (agrees.of_makes .argument)]
    refine Outcome.andThen_congr fun value read => ?_
    split
    · next comma =>
        have fewer := expression_remaining_le rules Precedence.lowest.rank parser
        have less := advance_advance_remaining_lt comma
        rw [more _ (by omega) (agrees.of_makes (.nextArgument read comma))]
    · rfl

theorem expression_of_agrees {bound : Int} {parser : Parser}
    (agrees : Agrees rules other (.expression bound parser)) :
    parser.expression rules bound = parser.expression other bound :=
  reading_of_agrees.1 bound parser agrees

theorem fold_of_agrees {rule : InfixRule} {left : Expr} {parser : Parser}
    (agrees : Agrees rules other (.fold rule left parser)) :
    parser.fold rules rule left = parser.fold other rule left :=
  reading_of_agrees.2.2.1 rule left parser agrees

theorem enter_opening_of_agrees {bound : Int} {parser : Parser} {opened : Opening}
    (agrees : Agrees rules other (.expression bound parser))
    (allowed : ¬ rules.maxDepth ≤ parser.depth)
    (opens : Opening.ofKind? parser.current.kind = some opened) :
    parser.enter.opening rules opened = parser.enter.opening other opened := by
  apply opening_of_agrees
  rintro rfl
  exact expression_of_agrees ((agrees.of_makes (.prefixed allowed opens)).of_makes .operand)

/-! ## Statements and programs -/

theorem letStatement_of_agrees {parser : Parser}
    (agrees : Agrees rules other (.letStatement parser)) :
    parser.letStatement rules = parser.letStatement other := by
  unfold letStatement
  split
  · rfl
  · next named name =>
      split
      · rfl
      · next assigned sign => rw [expression_of_agrees (agrees.of_makes (.letValue name sign))]

theorem returnStatement_of_agrees {parser : Parser}
    (agrees : Agrees rules other (.returnStatement parser)) :
    parser.returnStatement rules = parser.returnStatement other := by
  unfold returnStatement
  split
  · rfl
  · next notClosed =>
      split
      · rfl
      · next notEnded =>
          rw [expression_of_agrees (agrees.of_makes (.returnValue notClosed notEnded))]

theorem statement_of_agrees {parser : Parser} (agrees : Agrees rules other (.statement parser)) :
    parser.statement rules = parser.statement other := by
  unfold statement
  split
  · next isLet => exact letStatement_of_agrees (agrees.of_makes (.letStatement isLet))
  · next notLet =>
      split
      · next isReturn =>
          exact returnStatement_of_agrees (agrees.of_makes (.returnStatement isReturn))
      · next notReturn =>
          have alone := agrees.of_makes (.expressionStatement notLet notReturn)
          rw [expressionStatement, expression_of_agrees (alone.of_makes .alone),
            expressionStatement]

theorem statements_of_agrees {parser : Parser} (agrees : Agrees rules other (.program parser)) :
    parser.statements rules = parser.statements other := by
  induction parser using statements.induct rules with
  | case1 parser ending => rw [statements, statements, dif_pos ending, dif_pos ending]
  | case2 parser inside _ inductionHypothesis =>
      have statementEq := statement_of_agrees (agrees.of_makes (.statement inside))
      have rest := inductionHypothesis (agrees.of_makes (.nextStatement inside))
      rw [statements, statements, dif_neg inside, dif_neg inside, ← statementEq]
      exact congrArg _ rest

/-- A program is read alike under rules that agree wherever it climbs. -/
theorem program_of_agrees {parser : Parser} (agrees : Agrees rules other (.program parser)) :
    parser.program rules = parser.program other := by
  rw [program, program, statements_of_agrees agrees]

end Parser

/-! ## Calls -/

namespace Call

theorem Makes.of_agrees {call next : Call} (made : Makes other call next)
    (agrees : call.Agrees rules other) : Makes rules call next := by
  cases made with
  | statement inside => exact .statement inside
  | nextStatement inside =>
      have statementEq := Parser.statement_of_agrees (agrees.of_makes (.statement inside))
      rw [← statementEq]
      exact .nextStatement inside
  | letStatement isLet => exact .letStatement isLet
  | returnStatement isReturn => exact .returnStatement isReturn
  | expressionStatement notLet notReturn => exact .expressionStatement notLet notReturn
  | letValue name sign => exact .letValue name sign
  | returnValue notClosed notEnded => exact .returnValue notClosed notEnded
  | alone => exact .alone
  | prefixed allowed opens =>
      rw [← agrees.limit _ _ .refl] at allowed
      exact .prefixed allowed opens
  | climb allowed opens read =>
      rw [← agrees.limit _ _ .refl] at allowed
      have openingEq := Parser.enter_opening_of_agrees agrees allowed opens
      rw [← openingEq] at read ⊢
      exact .climb allowed opens read
  | operand => exact .operand
  | fold notClosed tighter ruleEq =>
      rw [← agrees.rule _ _ _ .refl notClosed tighter] at ruleEq
      exact .fold notClosed tighter ruleEq
  | climbOn notClosed tighter ruleEq folded =>
      rw [← agrees.rule _ _ _ .refl notClosed tighter] at ruleEq
      have foldEq := Parser.fold_of_agrees (agrees.of_makes (.fold notClosed tighter ruleEq))
      rw [← foldEq] at folded ⊢
      exact .climbOn notClosed tighter ruleEq folded
  | leftward => exact .leftward
  | rightward => exact .rightward
  | call notClosed => exact .call notClosed
  | argument => exact .argument
  | nextArgument read comma =>
      have firstEq := Parser.expression_of_agrees (agrees.of_makes .argument)
      rw [← firstEq] at read comma ⊢
      exact .nextArgument read comma

/-- Under rules that agree where a call asks, it makes the same calls on its way. -/
theorem Reaches.of_agrees {call last : Call} (reaches : call.Reaches other last)
    (agrees : call.Agrees rules other) : call.Reaches rules last := by
  induction reaches using Relation.ReflTransGen.head_induction_on with
  | refl => exact .refl
  | head made _ inductionHypothesis =>
      have madeHere := made.of_agrees agrees
      exact .head madeHere (inductionHypothesis (agrees.of_makes madeHere))

end Call

/-! ## Rules for kinds without a level -/

/-- The rules for the kinds that have a level. -/
def Rules.levelled (rules : Rules) : Rules :=
  { rules with
    infixRule := fun kind =>
      if (Precedence.ofOperator? kind).isSome then rules.infixRule kind else none }

/-- Rules for kinds without a level make no difference to a call that keeps to the
levels. -/
theorem Call.Levelled.agrees {call : Call} (levelled : call.Levelled) (rules : Rules) :
    call.Agrees rules rules.levelled := by
  refine ⟨fun _ _ _ => Iff.rfl, fun bound left parser reaches _ tighter => ?_⟩
  have climbLevelled : Precedence.lowest.rank ≤ bound := reaches.levelled levelled
  have level := isSome_of_lowest_lt (Int.lt_of_le_of_lt climbLevelled tighter)
  exact (if_pos level).symm

end PrattSyntax
