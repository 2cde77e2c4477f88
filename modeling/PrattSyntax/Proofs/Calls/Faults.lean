import PrattSyntax.Proofs.Calls.Tables
import PrattSyntax.Proofs.Parser.OneFault

/-!
# Faults of calls

What a call finds, the calls that lead to it hand on: no fault is lost on the way out to
the program, whether the thing read is kept or given up. So a text that is nowhere found
too deep holds no expression that is, and a higher limit of depth changes nothing.
-/

namespace PrattSyntax

variable {rules : Rules}

/-! ## Faults are handed on -/

namespace Outcome

variable {α β : Type}

theorem faults_subset_andThen (outcome : Outcome α) (next : α → Parser → Outcome β) :
    outcome.faults ⊆ (outcome.andThen next).faults := by
  cases resultEq : outcome.result with
  | none => simp only [andThen, resultEq, List.Subset.refl]
  | some value =>
      simp only [andThen, resultEq]
      exact List.subset_append_left _ _

/-- What is found behind something read is found in all. -/
theorem next_faults_subset_andThen {outcome : Outcome α} {next : α → Parser → Outcome β}
    {value : α} (read : outcome.result = some value) :
    (next value outcome.parser).faults ⊆ (outcome.andThen next).faults := by
  simp only [andThen, read]
  exact List.subset_append_right _ _

end Outcome

/-- A program has the faults of its first statement and then those of the rest. -/
theorem Parser.program_faults_of_not_atEnd {parser : Parser} (inside : ¬ parser.atEnd) :
    (parser.program rules).faults = (parser.statement rules).faults ++
      ((parser.statement rules).parser.advance.program rules).faults := by
  simp only [program]
  rw [statements, dif_neg inside, List.flatMap_cons]

namespace Call

/-- The faults that a call finds. -/
def faults (rules : Rules) : Call → List Fault
  | program parser => (parser.program rules).faults
  | statement parser => (parser.statement rules).faults
  | letStatement parser => (parser.letStatement rules).faults
  | returnStatement parser => (parser.returnStatement rules).faults
  | expressionStatement parser => (parser.expressionStatement rules).faults
  | expression bound parser => (parser.expression rules bound).faults
  | prefixed parser => (parser.prefixed rules).faults
  | climb bound left parser => (parser.climb rules bound left).faults
  | fold rule left parser => (parser.fold rules rule left).faults
  | arguments parser => (parser.arguments rules).faults

/-- A call that keeps to the levels has the faults of each call that it makes. -/
theorem Makes.faults_subset {call next : Call} (made : Makes rules call next)
    (levelled : call.Levelled) : next.faults rules ⊆ call.faults rules := by
  cases made with
  | statement inside =>
      simp only [faults, Parser.program_faults_of_not_atEnd inside]
      exact List.subset_append_left _ _
  | nextStatement inside =>
      simp only [faults, Parser.program_faults_of_not_atEnd inside]
      exact List.subset_append_right _ _
  | letStatement isLet =>
      simp only [faults, Parser.statement_eq_letStatement rules isLet, List.Subset.refl]
  | returnStatement isReturn =>
      simp only [faults, Parser.statement_eq_returnStatement rules isReturn, List.Subset.refl]
  | expressionStatement notLet notReturn =>
      simp only [faults, Parser.statement_eq_expressionStatement rules notLet notReturn,
        List.Subset.refl]
  | letValue name sign =>
      simp only [faults, Parser.letStatement, name, sign, Parser.finishStatement,
        List.Subset.refl]
  | returnValue notClosed notEnded =>
      simp only [faults, Parser.returnStatement, if_neg notClosed, if_neg notEnded,
        Parser.finishStatement, List.Subset.refl]
  | alone => exact List.Subset.refl _
  | prefixed allowed opens =>
      simp only [faults, Parser.expression_eq, if_neg allowed, opens, Outcome.move]
      rw [Parser.opening_eq]
      exact Outcome.faults_subset_andThen _ _
  | climb allowed opens read =>
      simp only [faults, Parser.expression_eq, if_neg allowed, opens, Outcome.move]
      exact Outcome.next_faults_subset_andThen read
  | operand =>
      simp only [faults, Parser.prefixed_eq, Outcome.map, List.Subset.refl]
  | fold notClosed tighter ruleEq =>
      have open? := not_or.mpr ⟨notClosed, Int.not_le.mpr tighter⟩
      simp only [faults, climb_eq_without_stop (.inr levelled), if_neg open?, ruleEq]
      exact Outcome.faults_subset_andThen _ _
  | climbOn notClosed tighter ruleEq folded =>
      have open? := not_or.mpr ⟨notClosed, Int.not_le.mpr tighter⟩
      simp only [faults]
      rw [climb_eq_without_stop (.inr levelled), if_neg open?, ruleEq]
      exact Outcome.next_faults_subset_andThen folded
  | leftward => simp only [faults, Parser.fold_eq, Outcome.map, List.Subset.refl]
  | rightward => simp only [faults, Parser.fold_eq, Outcome.map, List.Subset.refl]
  | call notClosed =>
      simp only [faults, Parser.fold_eq, if_neg notClosed]
      exact Outcome.faults_subset_andThen _ _
  | @argument parser =>
      simp only [faults]
      rw [Parser.arguments_eq rules parser]
      exact Outcome.faults_subset_andThen _ _
  | @nextArgument parser first read comma =>
      simp only [faults]
      rw [Parser.arguments_eq rules parser]
      refine List.Subset.trans ?_ (Outcome.next_faults_subset_andThen read)
      rw [if_pos comma]
      exact List.Subset.refl _

/-- A call that keeps to the levels has the faults of all calls on its way. -/
theorem Reaches.faults_subset {call last : Call} (reaches : call.Reaches rules last)
    (levelled : call.Levelled) : last.faults rules ⊆ call.faults rules := by
  induction reaches with
  | refl => exact List.Subset.refl _
  | tail reached made inductionHypothesis =>
      exact List.Subset.trans (made.faults_subset (Reaches.levelled reached levelled))
        inductionHypothesis

/-! ## The limit of depth -/

/-- Where nothing is found too deep, no expression is begun that is. -/
theorem Reaches.depth_lt {call : Call} {bound : Int} {parser : Parser}
    (reaches : call.Reaches rules (.expression bound parser)) (levelled : call.Levelled)
    (shallow : ∀ fault ∈ call.faults rules, fault.cause ≠ .tooDeep) :
    (parser.depth : Int) < rules.maxDepth := by
  by_contra reached
  have tooDeep : parser.faultHere .tooDeep ∈ (Call.expression bound parser).faults rules := by
    rw [faults, Parser.expression_eq, if_pos (Int.not_lt.mp reached)]
    exact List.mem_singleton_self _
  exact shallow _ (reaches.faults_subset levelled tooDeep) rfl

/-- Where nothing is found too deep, a higher limit allows the same. -/
theorem agrees_of_not_tooDeep {call : Call} {higher : Int} (levelled : call.Levelled)
    (shallow : ∀ fault ∈ call.faults rules, fault.cause ≠ .tooDeep)
    (le : rules.maxDepth ≤ higher) : call.Agrees rules { rules with maxDepth := higher } := by
  refine ⟨fun bound parser reaches => ?_, fun _ _ _ _ _ _ => rfl⟩
  have below := reaches.depth_lt levelled shallow
  exact iff_of_false (Int.not_le.mpr below) (Int.not_le.mpr (Int.lt_of_lt_of_le below le))

end Call

/-- A limit of depth makes no difference to a text that is nowhere found too deep: under a
higher one, whatever the rules are, the reading is the same, with everything else that is
held against the text. -/
theorem parseWith_of_not_tooDeep (rules : Rules) (text : List UInt8) {limit higher : Int}
    (le : limit ≤ higher)
    (shallow : ∀ fault ∈ (parseWith { rules with maxDepth := limit } text).faults,
      fault.cause ≠ .tooDeep) :
    parseWith { rules with maxDepth := higher } text =
      parseWith { rules with maxDepth := limit } text := by
  have levelled : (Call.program (.ofBytes text)).Levelled := trivial
  have agrees : (Call.program (.ofBytes text)).Agrees { rules with maxDepth := limit }
      { rules with maxDepth := higher } := Call.agrees_of_not_tooDeep levelled shallow le
  exact (Parser.program_of_agrees agrees).symm

/-- A sum of calls and signs, four expressions deep, in a text with two other faults. -/
theorem parseWith_of_not_tooDeep_sumsAndCalls :
    let text := "let 5; a + f(-x, !y) + ; 7".toUTF8.toList
    (4 : Int) ≤ 256 ∧
      (∀ fault ∈ (parseWith { Rules.sumsAndCalls with maxDepth := 4 } text).faults,
        fault.cause ≠ .tooDeep) ∧
      (parseWith { Rules.sumsAndCalls with maxDepth := 4 } text).faults.length = 2 ∧
      parseWith { Rules.sumsAndCalls with maxDepth := 256 } text =
        parseWith { Rules.sumsAndCalls with maxDepth := 4 } text := by
  intro text
  have shallow : ∀ fault ∈ (parseWith { Rules.sumsAndCalls with maxDepth := 4 } text).faults,
      fault.cause ≠ .tooDeep := by
    decide +kernel
  have le : (4 : Int) ≤ 256 := by decide
  exact ⟨le, shallow, by decide +kernel, parseWith_of_not_tooDeep .sumsAndCalls text le shallow⟩

end PrattSyntax
