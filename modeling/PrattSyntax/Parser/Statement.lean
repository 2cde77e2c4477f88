import PrattSyntax.Parser.Expression

/-!
# Reading statements

A statement is told by its first token. A `let` without a name or without `=` is
given up: one fault is recorded and the parser moves to the end of the broken
statement. Any other statement is kept, with its value absent if the value could
not be read. A semicolon behind a value is taken along, but none is required.
-/

namespace PrattSyntax

namespace Parser

/-- A statement made of a value that may be absent, with the semicolon behind it. -/
def finishStatement (build : Option Expr → Statement) (value : Outcome Expr) :
    Outcome Statement :=
  ⟨some (build value.result), value.faults, value.parser.passSemicolon⟩

/-- A `let`, from its word on. -/
def letStatement (rules : Rules) (parser : Parser) : Outcome Statement :=
  match parser.expect .ident with
  | .error fault => .failed fault parser.synchronize
  | .ok named =>
      match named.expect .assign with
      | .error fault => .failed fault named.synchronize
      | .ok assigned =>
          finishStatement (.binding parser.current ⟨named.current, named.current.literal⟩)
            (assigned.advance.expression rules Precedence.lowest.rank)

/-- A `return`, from its word on. Before a semicolon or at the end of the text it
has no value. -/
def returnStatement (rules : Rules) (parser : Parser) : Outcome Statement :=
  if parser.peek.kind = .semicolon then
    .done (.returning parser.current none) parser.advance
  else if parser.peek.kind = .eof then
    .done (.returning parser.current none) parser
  else
    finishStatement (.returning parser.current)
      (parser.advance.expression rules Precedence.lowest.rank)

/-- An expression alone. -/
def expressionStatement (rules : Rules) (parser : Parser) : Outcome Statement :=
  finishStatement (.expression parser.current)
    (parser.expression rules Precedence.lowest.rank)

/-- The statement at the current token. -/
def statement (rules : Rules) (parser : Parser) : Outcome Statement :=
  if parser.current.kind = .letWord then parser.letStatement rules
  else if parser.current.kind = .returnWord then parser.returnStatement rules
  else parser.expressionStatement rules

/-! ## What the first token tells -/

section

variable (rules : Rules) {parser : Parser}

theorem statement_eq_letStatement (isLet : parser.current.kind = .letWord) :
    parser.statement rules = parser.letStatement rules :=
  if_pos isLet

theorem statement_eq_returnStatement (isReturn : parser.current.kind = .returnWord) :
    parser.statement rules = parser.returnStatement rules := by
  have notLet : parser.current.kind ≠ .letWord := by
    rw [isReturn]
    exact TokenKind.noConfusion
  rw [statement, if_neg notLet, if_pos isReturn]

theorem statement_eq_expressionStatement (notLet : parser.current.kind ≠ .letWord)
    (notReturn : parser.current.kind ≠ .returnWord) :
    parser.statement rules = parser.expressionStatement rules := by
  rw [statement, if_neg notLet, if_neg notReturn]

end

/-! ## No statement goes back -/

theorem finishStatement_remaining_le (build : Option Expr → Statement)
    (value : Outcome Expr) :
    (finishStatement build value).parser.remaining ≤ value.parser.remaining :=
  value.parser.passSemicolon_remaining_le

theorem expect_remaining_le {parser behind : Parser} {required : TokenKind}
    (taken : parser.expect required = .ok behind) : behind.remaining ≤ parser.remaining := by
  unfold expect at taken
  split at taken
  · cases taken
    simp
  · contradiction

theorem letStatement_remaining_le (rules : Rules) (parser : Parser) :
    (parser.letStatement rules).parser.remaining ≤ parser.remaining := by
  unfold letStatement
  split
  · exact parser.synchronize_remaining_le
  · next named nameTaken =>
      have afterName := expect_remaining_le nameTaken
      split
      · exact Nat.le_trans named.synchronize_remaining_le afterName
      · next assigned signTaken =>
          have afterSign := expect_remaining_le signTaken
          have afterValue :=
            assigned.advance.expression_remaining_le rules Precedence.lowest.rank
          have afterAll := finishStatement_remaining_le
            (.binding parser.current ⟨named.current, named.current.literal⟩)
            (assigned.advance.expression rules Precedence.lowest.rank)
          rw [advance_remaining] at afterValue
          omega

theorem returnStatement_remaining_le (rules : Rules) (parser : Parser) :
    (parser.returnStatement rules).parser.remaining ≤ parser.remaining := by
  unfold returnStatement
  split
  · simp [Outcome.done]
  · split
    · exact Nat.le_refl _
    · have afterValue := parser.advance.expression_remaining_le rules Precedence.lowest.rank
      have afterAll := finishStatement_remaining_le (.returning parser.current)
        (parser.advance.expression rules Precedence.lowest.rank)
      rw [advance_remaining] at afterValue
      omega

theorem expressionStatement_remaining_le (rules : Rules) (parser : Parser) :
    (parser.expressionStatement rules).parser.remaining ≤ parser.remaining :=
  Nat.le_trans (finishStatement_remaining_le _ _)
    (parser.expression_remaining_le rules Precedence.lowest.rank)

theorem statement_remaining_le (rules : Rules) (parser : Parser) :
    (parser.statement rules).parser.remaining ≤ parser.remaining := by
  unfold statement
  split
  · exact parser.letStatement_remaining_le rules
  · split
    · exact parser.returnStatement_remaining_le rules
    · exact parser.expressionStatement_remaining_le rules

end Parser

end PrattSyntax
