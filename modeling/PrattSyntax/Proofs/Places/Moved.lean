import PrattSyntax.Parser.Program

/-!
# Moving places

Everything that is read off a text carries places, and nothing but places says
where in a text it was. A map of positions is carried here through tokens, trees,
faults and readings. Two maps matter: `Position.relocate origin` sends a place of
a text to the place it has when the text begins at `origin`, and the constant map
forgets places.
-/

namespace PrattSyntax

/-! ## Texts that begin elsewhere -/

namespace Position

/-- The place that `position` becomes when its text does not begin at the start but
at `origin`. Lines and offsets are counted on; columns are counted on as far as
the first line goes. -/
def relocate (origin position : Position) : Position :=
  ⟨origin.line + (position.line - 1),
    if position.line = 1 then origin.column + (position.column - 1) else position.column,
    origin.offset + position.offset⟩

theorem relocate_start (origin : Position) : origin.relocate start = origin := by
  simp [relocate, start]

theorem one_le_step_line {position : Position} (inside : 1 ≤ position.line) (byte : UInt8) :
    1 ≤ (position.step byte).line := by
  unfold step
  split
  · exact Int.le_trans inside (Int.le_add_of_nonneg_right (by decide))
  · exact inside

theorem one_le_after_line {position : Position} (inside : 1 ≤ position.line)
    (bytes : List UInt8) : 1 ≤ (position.after bytes).line := by
  induction bytes generalizing position with
  | nil => exact inside
  | cons byte bytes inductionHypothesis => exact inductionHypothesis (one_le_step_line inside byte)

theorem relocate_step (origin : Position) {position : Position} (inside : 1 ≤ position.line)
    (byte : UInt8) :
    origin.relocate (position.step byte) = (origin.relocate position).step byte := by
  unfold step
  by_cases opens : byte = Byte.lineFeed
  · have notFirst : position.line + 1 ≠ 1 := by omega
    rw [if_pos opens, if_pos opens]
    simp only [relocate, if_neg notFirst, Position.mk.injEq, true_and]
    omega
  · rw [if_neg opens, if_neg opens]
    by_cases first : position.line = 1
    · simp only [relocate, if_pos first, Position.mk.injEq, true_and]
      omega
    · simp only [relocate, if_neg first, Position.mk.injEq, true_and]
      omega

theorem relocate_after (origin : Position) {position : Position} (inside : 1 ≤ position.line)
    (bytes : List UInt8) :
    origin.relocate (position.after bytes) = (origin.relocate position).after bytes := by
  induction bytes generalizing position with
  | nil => rfl
  | cons byte bytes inductionHypothesis =>
      rw [after_cons, after_cons, inductionHypothesis (one_le_step_line inside byte),
        relocate_step origin inside]

/-- Behind a run of bytes, the place counted from `origin` is the relocated one. -/
theorem relocate_start_after (origin : Position) (bytes : List UInt8) :
    origin.relocate (start.after bytes) = origin.after bytes := by
  rw [relocate_after origin (Int.le_refl 1), relocate_start]

end Position

/-! ## Tokens and trees -/

section Moved

variable (move : Position → Position)

/-- A span with both of its ends moved. -/
def Span.moved (span : Span) : Span := ⟨move span.start, move span.stop⟩

/-- A token at another place. -/
def Token.moved (token : Token) : Token := { token with span := token.span.moved move }

/-- A name at another place. -/
def Identifier.moved (identifier : Identifier) : Identifier :=
  { identifier with token := identifier.token.moved move }

/-- An expression at another place. -/
def Expr.moved : Expr → Expr
  | .name identifier => .name (identifier.moved move)
  | .integer token value => .integer (token.moved move) value
  | .prefixed token operator operand => .prefixed (token.moved move) operator operand.moved
  | .infixed token text => .infixed (token.moved move) text

/-- A statement at another place. -/
def Statement.moved : Statement → Statement
  | .binding token name value =>
      .binding (token.moved move) (name.moved move) (value.map (Expr.moved move))
  | .returning token value => .returning (token.moved move) (value.map (Expr.moved move))
  | .expression token value => .expression (token.moved move) (value.map (Expr.moved move))

/-- A program at another place. -/
def Program.moved (program : Program) : Program :=
  ⟨program.statements.map (Statement.moved move)⟩

/-- A fault at another place. -/
def Fault.moved (fault : Fault) : Fault := { fault with span := fault.span.moved move }

/-- A reading at another place. -/
def Reading.moved (reading : Reading) : Reading :=
  ⟨reading.program.moved move, reading.faults.map (Fault.moved move)⟩

@[simp]
theorem Token.moved_kind (token : Token) : (token.moved move).kind = token.kind := rfl

@[simp]
theorem Token.moved_literal (token : Token) : (token.moved move).literal = token.literal := rfl

/-- The text of an expression does not depend on its place. -/
@[simp]
theorem Expr.render_moved (expr : Expr) : (expr.moved move).render = expr.render := by
  induction expr with
  | name identifier => rfl
  | integer token value => rfl
  | prefixed token operator operand inductionHypothesis =>
      simp only [moved, render, inductionHypothesis]
  | infixed token text => rfl

end Moved

/-! ## Forgetting places -/

theorem Token.moved_forget (token : Token) :
    token.moved (fun _ => .start) = token.unplaced := rfl

theorem Expr.moved_forget (expr : Expr) : expr.moved (fun _ => .start) = expr.unplaced := by
  induction expr with
  | name identifier => rfl
  | integer token value => rfl
  | prefixed token operator operand inductionHypothesis =>
      simp only [moved, unplaced, inductionHypothesis, Token.moved_forget]
  | infixed token text => rfl

theorem Statement.moved_forget (statement : Statement) :
    statement.moved (fun _ => .start) = statement.unplaced := by
  have exprEq : Expr.moved (fun _ => .start) = Expr.unplaced := funext Expr.moved_forget
  cases statement <;> simp only [moved, unplaced, exprEq] <;> rfl

theorem Program.moved_forget (program : Program) :
    program.moved (fun _ => .start) = program.unplaced := by
  have statementEq : Statement.moved (fun _ => .start) = Statement.unplaced :=
    funext Statement.moved_forget
  rw [moved, unplaced, statementEq]

/-! ## Streams, parsers and outcomes -/

section Moved

variable (move : Position → Position)

/-- A stream whose tokens and whose end are at other places. -/
def TokenStream.moved (stream : TokenStream) : TokenStream :=
  ⟨stream.ahead.map (Token.moved move), move stream.stop⟩

/-- A parser in front of a stream at another place. -/
def Parser.moved (parser : Parser) : Parser := { parser with input := parser.input.moved move }

/-- An outcome at another place, with the thing read moved by `place`. -/
def Outcome.moved {α : Type} (place : α → α) (outcome : Outcome α) : Outcome α :=
  ⟨outcome.result.map place, outcome.faults.map (Fault.moved move), outcome.parser.moved move⟩

/-- What a caller's own rule makes, at another place. -/
def Fold.moved (fold : Fold) : Fold :=
  { fold with
    result := fold.result.map (Expr.moved move)
    faults := fold.faults.map (Fault.moved move) }

namespace TokenStream

@[simp]
theorem current_moved (stream : TokenStream) :
    (stream.moved move).current = stream.current.moved move := by
  rcases stream with ⟨_ | ⟨token, rest⟩, stop⟩ <;> rfl

@[simp]
theorem peek_moved (stream : TokenStream) :
    (stream.moved move).peek = stream.peek.moved move := by
  rcases stream with ⟨_ | ⟨token, _ | ⟨next, rest⟩⟩, stop⟩ <;> rfl

@[simp]
theorem remaining_moved (stream : TokenStream) :
    (stream.moved move).remaining = stream.remaining :=
  List.length_map _

theorem advance_moved (stream : TokenStream) :
    (stream.moved move).advance = stream.advance.moved move := by
  simp only [advance, moved, List.map_tail]

theorem skipExpression_moved (stream : TokenStream) :
    (stream.moved move).skipExpression = stream.skipExpression.moved move := by
  suffices mapped : ∀ tokens : List Token,
      skipExpression.untilSemicolon (tokens.map (Token.moved move)) =
        (skipExpression.untilSemicolon tokens).map (Token.moved move) by
    simp only [skipExpression, moved, mapped]
  intro tokens
  fun_induction skipExpression.untilSemicolon tokens with
  | case1 token next rest closes =>
      simp [skipExpression.untilSemicolon, closes]
  | case2 token next rest notClosing inductionHypothesis =>
      simpa [skipExpression.untilSemicolon, notClosing] using inductionHypothesis
  | case3 short notLong =>
      rcases short with _ | ⟨token, _ | ⟨next, rest⟩⟩
      · rfl
      · rfl
      · exact absurd rfl (notLong token next rest)

theorem synchronize_moved (stream : TokenStream) :
    (stream.moved move).synchronize = stream.synchronize.moved move := by
  suffices mapped : ∀ tokens : List Token,
      synchronize.untilBoundary (tokens.map (Token.moved move)) =
        (synchronize.untilBoundary tokens).map (Token.moved move) by
    simp only [synchronize, moved, mapped]
  have boundaryEq : ∀ rest : List Token,
      (rest.map (Token.moved move)).head?.any synchronize.opensStatement =
        rest.head?.any synchronize.opensStatement := by
    intro rest
    cases rest <;> rfl
  intro tokens
  fun_induction synchronize.untilBoundary tokens with
  | case1 => rfl
  | case2 token rest boundary =>
      rw [List.map_cons, synchronize.untilBoundary, boundaryEq]
      exact if_pos boundary
  | case3 token rest notBoundary inductionHypothesis =>
      rw [List.map_cons, synchronize.untilBoundary, boundaryEq, ← inductionHypothesis]
      exact if_neg notBoundary

end TokenStream

namespace Parser

@[simp]
theorem current_moved (parser : Parser) :
    (parser.moved move).current = parser.current.moved move :=
  parser.input.current_moved move

@[simp]
theorem peek_moved (parser : Parser) : (parser.moved move).peek = parser.peek.moved move :=
  parser.input.peek_moved move

@[simp]
theorem depth_moved (parser : Parser) : (parser.moved move).depth = parser.depth := rfl

@[simp]
theorem remaining_moved (parser : Parser) : (parser.moved move).remaining = parser.remaining :=
  parser.input.remaining_moved move

@[simp]
theorem atEnd_moved (parser : Parser) : (parser.moved move).atEnd = parser.atEnd := by
  simp [atEnd]

@[simp]
theorem enter_moved (parser : Parser) : (parser.moved move).enter = parser.enter.moved move := rfl

@[simp]
theorem leave_moved (parser : Parser) : (parser.moved move).leave = parser.leave.moved move := rfl

@[simp]
theorem advance_moved (parser : Parser) :
    (parser.moved move).advance = parser.advance.moved move := by
  simp only [advance, moved, TokenStream.advance_moved]

@[simp]
theorem skipExpression_moved (parser : Parser) :
    (parser.moved move).skipExpression = parser.skipExpression.moved move := by
  simp only [skipExpression, moved, TokenStream.skipExpression_moved]

@[simp]
theorem synchronize_moved (parser : Parser) :
    (parser.moved move).synchronize = parser.synchronize.moved move := by
  simp only [synchronize, moved, TokenStream.synchronize_moved]

@[simp]
theorem faultHere_moved (parser : Parser) (cause : Cause) :
    (parser.moved move).faultHere cause = (parser.faultHere cause).moved move := by
  simp only [faultHere, current_moved]
  rfl

theorem passSemicolon_moved (parser : Parser) :
    (parser.moved move).passSemicolon = parser.passSemicolon.moved move := by
  unfold passSemicolon
  by_cases closes : parser.peek.kind = .semicolon
  · rw [if_pos closes, if_pos (by simpa using closes), advance_moved]
  · rw [if_neg closes, if_neg (by simpa using closes)]

theorem expect_moved (parser : Parser) (required : TokenKind) :
    (parser.moved move).expect required =
      match parser.expect required with
      | .ok behind => .ok (behind.moved move)
      | .error fault => .error (fault.moved move) := by
  unfold expect
  by_cases found : parser.peek.kind = required
  · rw [if_pos found, if_pos (by simpa using found), advance_moved]
  · rw [if_neg found, if_neg (by simpa using found)]
    simp only [unexpectedPeek, peek_moved]
    rfl

end Parser

namespace Outcome

variable {α β : Type}

theorem moved_map {place : α → α} {placeResult : β → β} {function placed : α → β}
    (same : ∀ value, placeResult (function value) = placed (place value))
    (outcome : Outcome α) :
    (outcome.map function).moved move placeResult = (outcome.moved move place).map placed := by
  have resultEq : placeResult ∘ function = placed ∘ place := funext same
  simp only [map, moved, Option.map_map, resultEq]

theorem moved_move {place : α → α} {step : Parser → Parser}
    (same : ∀ parser, (step parser).moved move = step (parser.moved move))
    (outcome : Outcome α) :
    (outcome.move step).moved move place = (outcome.moved move place).move step := by
  simp only [Outcome.move, moved, same]

theorem moved_andThen {place : α → α} {placeResult : β → β}
    {next placed : α → Parser → Outcome β} {outcome : Outcome α}
    (same : ∀ value, outcome.result = some value →
      (next value outcome.parser).moved move placeResult =
        placed (place value) (outcome.parser.moved move)) :
    (outcome.andThen next).moved move placeResult =
      (outcome.moved move place).andThen placed := by
  cases resultEq : outcome.result with
  | none => simp [andThen, moved, resultEq]
  | some value =>
      have nextEq := same value resultEq
      simp only [andThen, moved, resultEq, Option.map_some, ← nextEq, after, List.map_append]

end Outcome

end Moved

end PrattSyntax
