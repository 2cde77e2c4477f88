import PrattSyntax.Proofs.Calls.Tables
import PrattSyntax.Proofs.Lexer.Segmentation
import PrattSyntax.Proofs.Parser.OneFault
import PrattSyntax.Proofs.Parser.Progress

/-!
# A program is read to its end

Reading a program comes to an end, whatever the rules are. Every statement begins
at a token of its own, further on than the one before it, and behind the last one
nothing is ahead.
-/

namespace PrattSyntax

namespace Parser

variable {rules : Rules}

/-- The parser in front of the next statement stands behind the current token. -/
theorem follows_nextStatement (rules : Rules) (parser : Parser) :
    parser.advance.Follows (parser.statement rules).parser.advance :=
  (parser.follows_statement rules).advance

theorem nextStatement_remaining_lt {parser : Parser} (inside : ¬ parser.atEnd) :
    (parser.statement rules).parser.advance.remaining < parser.remaining := by
  have ahead := remaining_pos_of_not_atEnd inside
  have behind := parser.statement_remaining_le rules
  rw [advance_remaining]
  omega

theorem statementCalls_of_atEnd {parser : Parser} (ending : parser.atEnd) :
    parser.statementCalls rules = [] := by
  rw [statementCalls, dif_pos ending]

theorem statementCalls_of_not_atEnd {parser : Parser} (inside : ¬ parser.atEnd) :
    parser.statementCalls rules =
      parser :: (parser.statement rules).parser.advance.statementCalls rules := by
  rw [statementCalls, dif_neg inside]

/-- Statements begin at tokens ahead, each at another one, in their order. -/
theorem statementCalls_sublist (rules : Rules) (parser : Parser) :
    ((parser.statementCalls rules).map current).Sublist parser.input.ahead := by
  induction parser using statements.induct rules with
  | case1 parser ending =>
      rw [statementCalls_of_atEnd ending]
      exact List.nil_sublist _
  | case2 parser inside _ inductionHypothesis =>
      have behind := (follows_nextStatement rules parser).ahead.sublist
      have aheadEq : parser.input.ahead = parser.current :: parser.advance.input.ahead := by
        rcases parser with ⟨⟨_ | ⟨token, rest⟩, stop⟩, depth⟩
        · exact absurd rfl inside
        · rfl
      rw [statementCalls_of_not_atEnd inside, List.map_cons, aheadEq]
      exact (inductionHypothesis.trans behind).cons_cons _

theorem remaining_le_of_mem_statementCalls {parser call : Parser}
    (callMem : call ∈ parser.statementCalls rules) : call.remaining ≤ parser.remaining := by
  induction parser using statements.induct rules with
  | case1 parser ending =>
      rw [statementCalls_of_atEnd ending] at callMem
      contradiction
  | case2 parser inside _ inductionHypothesis =>
      rw [statementCalls_of_not_atEnd inside] at callMem
      rcases List.mem_cons.mp callMem with rfl | later
      · exact Nat.le_refl _
      · exact Nat.le_of_lt
          (Nat.lt_of_le_of_lt (inductionHypothesis later) (nextStatement_remaining_lt inside))

/-- From one statement to the next, fewer tokens are ahead. -/
theorem statementCalls_pairwise (rules : Rules) (parser : Parser) :
    (parser.statementCalls rules).Pairwise fun earlier later =>
      later.remaining < earlier.remaining := by
  induction parser using statements.induct rules with
  | case1 parser ending =>
      rw [statementCalls_of_atEnd ending]
      exact List.Pairwise.nil
  | case2 parser inside _ inductionHypothesis =>
      rw [statementCalls_of_not_atEnd inside]
      refine List.pairwise_cons.mpr ⟨fun call callMem => ?_, inductionHypothesis⟩
      exact Nat.lt_of_le_of_lt (remaining_le_of_mem_statementCalls callMem)
        (nextStatement_remaining_lt inside)

theorem behindProgram_of_atEnd {parser : Parser} (ending : parser.atEnd) :
    parser.behindProgram rules = parser := by
  rw [behindProgram, statements, dif_pos ending]
  rfl

/-- Behind a program is behind the statements that follow its first one. -/
theorem behindProgram_of_not_atEnd {parser : Parser} (inside : ¬ parser.atEnd) :
    parser.behindProgram rules =
      (parser.statement rules).parser.advance.behindProgram rules := by
  rw [behindProgram, statements, dif_neg inside, behindProgram]
  simp only [List.getLast?_cons]
  cases ((parser.statement rules).parser.advance.statements rules).getLast? <;> rfl

theorem behindProgram_atEnd (rules : Rules) (parser : Parser) :
    (parser.behindProgram rules).atEnd := by
  induction parser using statements.induct rules with
  | case1 parser ending => rwa [behindProgram_of_atEnd ending]
  | case2 parser inside _ inductionHypothesis => rwa [behindProgram_of_not_atEnd inside]

end Parser

/-- Whatever the rules are, no chain of the calls that a program makes is endless,
nothing is ahead behind the program, and its statements begin at tokens of the text,
each at another one and with fewer tokens ahead than the one before. Every
expression is read with a bound from the loosest level up and every operator that is
folded has a level, so that rules for other kinds make no difference. -/
theorem parseWith_ends (rules : Rules) (text : List UInt8) :
    let parser := Parser.ofBytes text
    Acc (fun next made => Call.Makes rules made next) (.program parser) ∧
      (parser.behindProgram rules).atEnd ∧
      ((parser.statementCalls rules).map Parser.current).Sublist (tokenize text).dropLast ∧
      ((parser.statementCalls rules).Pairwise fun earlier later =>
        later.remaining < earlier.remaining) ∧
      (∀ bound place, (Call.program parser).Reaches rules (.expression bound place) →
        Precedence.lowest.rank ≤ bound) ∧
      (∀ rule left place, (Call.program parser).Reaches rules (.fold rule left place) →
        (Precedence.ofOperator? place.current.kind).isSome) ∧
      parseWith rules text = parseWith rules.levelled text := by
  intro parser
  have levelled : (Call.program parser).Levelled := trivial
  rw [tokenize_dropLast]
  exact ⟨levelled.acc, parser.behindProgram_atEnd rules, parser.statementCalls_sublist rules,
    parser.statementCalls_pairwise rules, fun bound place reaches => reaches.levelled levelled,
    fun rule left place reaches => reaches.levelled levelled,
    Parser.program_of_agrees (levelled.agrees rules)⟩

end PrattSyntax
