import PrattSyntax.Proofs.Calls.Faults
import PrattSyntax.Proofs.Grammar.Acceptance

/-!
# Rules that accepted texts do not ask for

Where a text is read without a fault and without operators between operands, what stands
behind an expression is a semicolon, the end or the first token of another statement. Of
the tokens that a statement begins with, only the minus is also an operator between
operands. So rules for other kinds fold nothing there, and what they would do is of no
account.
-/

namespace PrattSyntax

variable {limit : Int}

/-- Of the tokens that open an expression, only the minus can stand between operands. -/
theorem Opening.eq_minus_of_lowest_lt {kind : TokenKind} {opened : Opening}
    (opens : ofKind? kind = some opened)
    (tighter : Precedence.lowest.rank < (Precedence.ofKind kind).rank) : kind = .minus := by
  cases kind with
  | minus => rfl
  | ident | int | bang => exact absurd tighter (by decide)
  | _ => contradiction

namespace Parser

variable {parser : Parser}

/-- An accepted program begins with no operator between operands but the minus. -/
theorem current_eq_minus_of_accepted (accepted : (parser.program (.plain limit)).faults = [])
    (tighter : Precedence.lowest.rank < (Precedence.ofKind parser.current.kind).rank) :
    parser.current.kind = .minus := by
  have other {kind : TokenKind} (level : ¬ Precedence.lowest.rank < (Precedence.ofKind kind).rank) :
      parser.current.kind ≠ kind := by
    rintro rfl
    exact level tighter
  have inside : ¬ parser.atEnd := by
    intro ending
    exact other (by decide) (of_decide_eq_true ending)
  rw [program_faults_of_not_atEnd inside, List.append_eq_nil_iff,
    statement_eq_expressionStatement _ (other (by decide)) (other (by decide))] at accepted
  have faultsEq : (parser.expression (.plain limit) Precedence.lowest.rank).faults = [] :=
    accepted.1
  rw [expression_eq] at faultsEq
  split at faultsEq
  · contradiction
  · split at faultsEq
    · contradiction
    · next opened opens => exact Opening.eq_minus_of_lowest_lt opens tighter

/-- Whether the next token closes a statement, or is no operator between operands but the
minus. -/
def Settles (parser : Parser) : Prop :=
  parser.peek.kind ≠ .semicolon →
    Precedence.lowest.rank < (Precedence.ofKind parser.peek.kind).rank →
      parser.peek.kind = .minus

/-- A value settles if an accepted program goes on behind its statement. -/
theorem settles_of_finishStatement {build : Option Expr → Statement} {value : Outcome Expr}
    (accepted : ((finishStatement build value).parser.advance.program (.plain limit)).faults = []) :
    value.parser.Settles := by
  intro notClosed tighter
  have stays : (finishStatement build value).parser = value.parser := if_neg notClosed
  rw [stays] at accepted
  exact current_eq_minus_of_accepted accepted tighter

/-- Where nothing is folded, an expression ends where its opening does. -/
theorem parser_of_expression_plain {opened : Opening} (bound : Int)
    (allowed : ¬ (Rules.plain limit).maxDepth ≤ parser.depth)
    (opens : Opening.ofKind? parser.current.kind = some opened) :
    (parser.expression (.plain limit) bound).parser =
      (parser.enter.opening (.plain limit) opened).parser.leave := by
  simp only [expression_eq, if_neg allowed, opens, Outcome.move, Outcome.andThen, climb_plain]
  split <;> rfl

end Parser

namespace Call

/-- Whether a call leads into an accepted program, or settles where it ends. Nothing is
folded, so there are no arguments either. -/
def Accepted (limit : Int) : Call → Prop
  | program parser => (parser.program (.plain limit)).faults = []
  | statement parser =>
      ((parser.statement (.plain limit)).parser.advance.program (.plain limit)).faults = []
  | letStatement parser =>
      ((parser.letStatement (.plain limit)).parser.advance.program (.plain limit)).faults = []
  | returnStatement parser =>
      ((parser.returnStatement (.plain limit)).parser.advance.program (.plain limit)).faults = []
  | expressionStatement parser =>
      ((parser.expressionStatement (.plain limit)).parser.advance.program
        (.plain limit)).faults = []
  | expression bound parser => (parser.expression (.plain limit) bound).parser.Settles
  | prefixed parser => (parser.prefixed (.plain limit)).parser.Settles
  | climb _ _ parser => parser.Settles
  | fold _ _ _ | arguments _ => False

theorem Makes.accepted {call next : Call} (made : Makes (.plain limit) call next)
    (accepted : call.Accepted limit) : next.Accepted limit := by
  cases made with
  | statement inside | nextStatement inside =>
      rw [Accepted, Parser.program_faults_of_not_atEnd inside, List.append_eq_nil_iff] at accepted
      exact accepted.2
  | letStatement isLet =>
      rwa [Accepted, Parser.statement_eq_letStatement _ isLet] at accepted
  | returnStatement isReturn =>
      rwa [Accepted, Parser.statement_eq_returnStatement _ isReturn] at accepted
  | expressionStatement notLet notReturn =>
      rwa [Accepted, Parser.statement_eq_expressionStatement _ notLet notReturn] at accepted
  | letValue name sign =>
      simp only [Accepted, Parser.letStatement, name, sign] at accepted
      exact Parser.settles_of_finishStatement accepted
  | returnValue notClosed notEnded =>
      rw [Accepted, Parser.returnStatement, if_neg notClosed, if_neg notEnded] at accepted
      exact Parser.settles_of_finishStatement accepted
  | alone => exact Parser.settles_of_finishStatement accepted
  | prefixed allowed opens =>
      rw [Accepted, Parser.parser_of_expression_plain _ allowed opens, Parser.opening_eq] at accepted
      exact accepted
  | climb allowed opens read =>
      rw [Accepted, Parser.parser_of_expression_plain _ allowed opens] at accepted
      exact accepted
  | operand =>
      rw [Accepted, Parser.prefixed_eq] at accepted
      exact accepted
  | fold _ _ ruleEq | climbOn _ _ ruleEq _ => contradiction
  | leftward | rightward | call | argument | nextArgument => exact accepted.elim

theorem Reaches.accepted {call last : Call} (reaches : call.Reaches (.plain limit) last)
    (accepted : call.Accepted limit) : last.Accepted limit := by
  induction reaches with
  | refl => exact accepted
  | tail _ made inductionHypothesis => exact made.accepted inductionHypothesis

/-- No rule is asked for in an accepted program, except for one of the minus. -/
theorem agrees_of_accepted {rules : Rules} (noRule : rules.infixRule .minus = none)
    {parser : Parser} (accepted : (program parser).Accepted rules.maxDepth) :
    (program parser).Agrees (.plain rules.maxDepth) rules := by
  refine ⟨fun _ _ _ => Iff.rfl, fun bound left place reaches notClosed tighter => ?_⟩
  have programLevelled : (program parser).Levelled := trivial
  have levelled : Precedence.lowest.rank ≤ bound := reaches.levelled programLevelled
  have settles : place.Settles := reaches.accepted accepted
  rw [settles notClosed (Int.lt_of_le_of_lt levelled tighter), noRule]
  rfl

end Call

/-- A text that is accepted without operators between operands is read alike under all
rules with the same limit and no rule for the minus: nothing in it is folded, whatever the
other rules would do. -/
theorem parseWith_of_no_minus_rule {rules : Rules} (noRule : rules.infixRule .minus = none)
    {text : List UInt8} (accepted : (parseWith { maxDepth := rules.maxDepth } text).faults = []) :
    parseWith rules text = ⟨(parseWith { maxDepth := rules.maxDepth } text).program, []⟩ ∧
      ∀ rule left place,
        ¬ (Call.program (.ofBytes text)).Reaches rules (.fold rule left place) := by
  have agrees : (Call.program (.ofBytes text)).Agrees (.plain rules.maxDepth) rules :=
    Call.agrees_of_accepted noRule accepted
  constructor
  · have readingEq : parseWith { maxDepth := rules.maxDepth } text = parseWith rules text :=
      Parser.program_of_agrees agrees
    rw [← readingEq, ← accepted]
  · intro rule left place reaches
    exact (reaches.of_agrees agrees).accepted accepted

/-- Rules that would give up everything ahead, for all kinds but the minus, and statements
without semicolons between them. -/
theorem parseWith_of_no_minus_rule_grasping :
    let rules : Rules :=
      { infixRule := fun kind => if kind = .minus then none else
          some (.custom fun _ ahead => ⟨none, ahead.remaining, [⟨.tooDeep, .origin⟩]⟩)
        maxDepth := 3 }
    let text := "let a = !-7 return -b -c; d 5 let e = f return".toUTF8.toList
    rules.infixRule .minus = none ∧ (parseWith { maxDepth := 3 } text).faults = [] ∧
      (parseWith { maxDepth := 3 } text).program.statements.length = 7 ∧
      parseWith rules text = ⟨(parseWith { maxDepth := 3 } text).program, []⟩ ∧
      ∀ rule left place,
        ¬ (Call.program (.ofBytes text)).Reaches rules (.fold rule left place) := by
  intro rules text
  have noRule : rules.infixRule .minus = none := rfl
  have accepted : (parseWith { maxDepth := 3 } text).faults = [] := by decide +kernel
  exact ⟨noRule, accepted, by decide +kernel, parseWith_of_no_minus_rule noRule accepted⟩

/-- A rule for the minus is asked for: it makes one expression of two. -/
example : (parseWith { infixRule := fun kind => if kind = .minus then some .leftward else none }
    "a -b".toUTF8.toList).program.statements.length = 1 := by
  decide +kernel

end PrattSyntax
