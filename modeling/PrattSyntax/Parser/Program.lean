import PrattSyntax.Parser.Statement

/-!
# Reading programs

A program is read statement by statement until the text ends, one token further
after each of them. The outcomes of the statements, in order, hold all there is
to know: the program is what they read, the faults are what they found.
-/

namespace PrattSyntax

/-- What a text is read as, and what was held against it. -/
structure Reading where
  program : Program
  faults : List Fault
deriving DecidableEq, Repr

namespace Parser

/-- A parser that is not at the end has tokens ahead. -/
theorem remaining_pos_of_not_atEnd {parser : Parser} (notEnd : ¬ parser.atEnd) :
    0 < parser.remaining :=
  remaining_pos_of_current fun isEof => notEnd (by simp [atEnd, isEof])

/-- The outcomes of the statements from here to the end of the text. -/
def statements (rules : Rules) (parser : Parser) : List (Outcome Statement) :=
  if _ending : parser.atEnd then []
  else
    let outcome := parser.statement rules
    outcome :: outcome.parser.advance.statements rules
termination_by parser.remaining
decreasing_by
  have ahead := remaining_pos_of_not_atEnd _ending
  have behind := parser.statement_remaining_le rules
  rw [advance_remaining]
  omega

/-- The program from here to the end of the text. -/
def program (rules : Rules) (parser : Parser) : Reading :=
  let outcomes := parser.statements rules
  ⟨⟨outcomes.filterMap Outcome.result⟩, outcomes.flatMap Outcome.faults⟩

/-- The parser behind the program. -/
def behindProgram (rules : Rules) (parser : Parser) : Parser :=
  match (parser.statements rules).getLast? with
  | none => parser
  | some last => last.parser.advance

end Parser

/-- A text read under given rules. -/
def parseWith (rules : Rules) (bytes : List UInt8) : Reading :=
  (Parser.ofBytes bytes).program rules

/-- A text read under the rules of the language: no operator stands between
operands, and at most 256 expressions stand inside one another. -/
def parse (bytes : List UInt8) : Reading := parseWith {} bytes

end PrattSyntax
