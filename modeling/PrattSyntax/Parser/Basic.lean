import PrattSyntax.Fault
import PrattSyntax.Precedence
import PrattSyntax.Token.Stream
import PrattSyntax.Tree.Render

/-!
# Parsers and outcomes

A parser stands at a place in a token stream, inside a number of unfinished
expressions. A parsing function takes a parser and leaves an outcome: what was
read, unless it could not be read, the faults found on the way, and the parser
behind it. Faults are handed out and never looked at again, so that what is read
depends on the stream alone.
-/

namespace PrattSyntax

/-- A place in a token stream and the number of expressions begun and not yet
finished there. -/
structure Parser where
  input : TokenStream
  depth : Nat
deriving DecidableEq, Repr

namespace Parser

/-- A parser at the start of a text. -/
def ofBytes (bytes : List UInt8) : Parser := ⟨.ofBytes bytes, 0⟩

/-! ## Where the parser stands -/

/-- The token under examination. -/
def current (parser : Parser) : Token := parser.input.current

/-- The token after it. -/
def peek (parser : Parser) : Token := parser.input.peek

/-- How many tokens are ahead. -/
def remaining (parser : Parser) : Nat := parser.input.remaining

/-- Whether nothing but the mark of the end is ahead. -/
def atEnd (parser : Parser) : Bool := parser.current.kind = .eof

/-- A cause found at the current token. -/
def faultHere (parser : Parser) (cause : Cause) : Fault := ⟨cause, parser.current.span⟩

/-- The fault of a next token that is not of the kind required. -/
def unexpectedPeek (parser : Parser) (required : TokenKind) : Fault :=
  ⟨.unexpected required parser.peek.kind, parser.peek.span⟩

/-! ## Moving on -/

/-- One token further. -/
def advance (parser : Parser) : Parser := { parser with input := parser.input.advance }

/-- The parser inside one more expression. -/
def enter (parser : Parser) : Parser := { parser with depth := parser.depth + 1 }

/-- The parser outside the innermost expression. -/
def leave (parser : Parser) : Parser := { parser with depth := parser.depth - 1 }

/-- One token further if the next one is of a given kind. -/
def expect (parser : Parser) (required : TokenKind) : Except Fault Parser :=
  if parser.peek.kind = required then .ok parser.advance
  else .error (parser.unexpectedPeek required)

/-- One token further if the next one is a semicolon. -/
def passSemicolon (parser : Parser) : Parser :=
  if parser.peek.kind = .semicolon then parser.advance else parser

/-- To the token before the next `;`, or to the last token. -/
def skipExpression (parser : Parser) : Parser :=
  { parser with input := parser.input.skipExpression }

/-- To the end of a broken statement, or to just before the next one. -/
def synchronize (parser : Parser) : Parser :=
  { parser with input := parser.input.synchronize }

/-! ## No move goes back -/

@[simp]
theorem advance_remaining (parser : Parser) :
    parser.advance.remaining = parser.remaining - 1 :=
  parser.input.advance_remaining

@[simp]
theorem enter_remaining (parser : Parser) : parser.enter.remaining = parser.remaining := rfl

@[simp]
theorem leave_remaining (parser : Parser) : parser.leave.remaining = parser.remaining := rfl

theorem passSemicolon_remaining_le (parser : Parser) :
    parser.passSemicolon.remaining ≤ parser.remaining := by
  unfold passSemicolon
  split
  · simp
  · exact Nat.le_refl _

theorem skipExpression_remaining_le (parser : Parser) :
    parser.skipExpression.remaining ≤ parser.remaining :=
  parser.input.skipExpression_remaining_le

theorem synchronize_remaining_le (parser : Parser) :
    parser.synchronize.remaining ≤ parser.remaining :=
  parser.input.synchronize_remaining_le

theorem remaining_pos_of_current {parser : Parser}
    (notEof : parser.current.kind ≠ .eof) : 0 < parser.remaining :=
  TokenStream.remaining_pos_of_current notEof

theorem two_le_remaining_of_peek {parser : Parser}
    (notEof : parser.peek.kind ≠ .eof) : 2 ≤ parser.remaining :=
  TokenStream.two_le_remaining_of_peek notEof

end Parser

/-- What a parsing function leaves: the thing read, if it could be read, the
faults in the order they were found, and the parser behind it. -/
structure Outcome (α : Type) where
  result : Option α
  faults : List Fault
  parser : Parser
deriving DecidableEq, Repr

namespace Outcome

variable {α β : Type}

/-- Something read without a fault. -/
def done (value : α) (parser : Parser) : Outcome α := ⟨some value, [], parser⟩

/-- Nothing read, because of one fault. -/
def failed (fault : Fault) (parser : Parser) : Outcome α := ⟨none, [fault], parser⟩

/-- The outcome with its thing made into another. -/
def map (function : α → β) (outcome : Outcome α) : Outcome β :=
  ⟨outcome.result.map function, outcome.faults, outcome.parser⟩

/-- The outcome after earlier faults. -/
def after (earlier : List Fault) (outcome : Outcome α) : Outcome α :=
  { outcome with faults := earlier ++ outcome.faults }

/-- What comes next is read behind the thing read, or not at all. -/
def andThen (outcome : Outcome α) (next : α → Parser → Outcome β) : Outcome β :=
  match outcome.result with
  | none => ⟨none, outcome.faults, outcome.parser⟩
  | some value => (next value outcome.parser).after outcome.faults

/-- The outcome with its parser moved. -/
def move (step : Parser → Parser) (outcome : Outcome α) : Outcome α :=
  { outcome with parser := step outcome.parser }

@[simp]
theorem map_done (function : α → β) (value : α) (parser : Parser) :
    (done value parser).map function = done (function value) parser := rfl

@[simp]
theorem move_done (step : Parser → Parser) (value : α) (parser : Parser) :
    (done value parser).move step = done value (step parser) := rfl

@[simp]
theorem done_andThen (value : α) (parser : Parser) (next : α → Parser → Outcome β) :
    (done value parser).andThen next = next value parser := rfl

end Outcome

end PrattSyntax
