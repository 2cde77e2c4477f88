import PrattSyntax.Lexer.Cursor

/-!
# Token streams

A stream is the tokens that are still to be parsed and the place where the text
ends. Behind the last token the mark of the end comes again and again, so a
parser may look at the current token and at the one after it without asking
whether there is one.
-/

namespace PrattSyntax

/-- The tokens ahead, without the mark of the end, and the place of that mark. -/
structure TokenStream where
  ahead : List Token
  stop : Position
deriving DecidableEq, Repr

namespace TokenStream

/-- The stream of the tokens of a text. -/
def ofBytes (bytes : List UInt8) : TokenStream :=
  ⟨(Cursor.ofBytes bytes).tokens, (Cursor.ofBytes bytes).finish.position⟩

/-- The mark of the end. -/
def eof (stream : TokenStream) : Token := Token.eof stream.stop

/-- The token under examination. -/
def current (stream : TokenStream) : Token := stream.ahead.headD stream.eof

/-- The token after the current one. -/
def peek (stream : TokenStream) : Token := stream.ahead.tail.headD stream.eof

/-- One token further; at the end nothing changes. -/
def advance (stream : TokenStream) : TokenStream := { stream with ahead := stream.ahead.tail }

/-- How many tokens are ahead. -/
def remaining (stream : TokenStream) : Nat := stream.ahead.length

@[simp]
theorem advance_remaining (stream : TokenStream) :
    stream.advance.remaining = stream.remaining - 1 :=
  List.length_tail

/-- A current token that is not the mark of the end is still ahead. -/
theorem remaining_pos_of_current {stream : TokenStream}
    (notEof : stream.current.kind ≠ .eof) : 0 < stream.remaining := by
  rcases stream with ⟨_ | ⟨token, rest⟩, stop⟩
  · exact absurd rfl notEof
  · simp [remaining]

/-- A next token that is not the mark of the end has the current one before it. -/
theorem two_le_remaining_of_peek {stream : TokenStream}
    (notEof : stream.peek.kind ≠ .eof) : 2 ≤ stream.remaining := by
  rcases stream with ⟨_ | ⟨token, _ | ⟨next, rest⟩⟩, stop⟩
  · exact absurd rfl notEof
  · exact absurd rfl notEof
  · simp [remaining]

/-- To the token before the next `;`, or to the last token. -/
def skipExpression (stream : TokenStream) : TokenStream :=
  { stream with ahead := untilSemicolon stream.ahead }
where
  /-- Drops tokens as long as the one after the first is no `;`. -/
  untilSemicolon : List Token → List Token
    | token :: next :: rest =>
        if next.kind = .semicolon then token :: next :: rest else untilSemicolon (next :: rest)
    | short => short

/-- To the next `;`, or to the token before the next `let` or `return`, or to the
end, whichever comes first. -/
def synchronize (stream : TokenStream) : TokenStream :=
  { stream with ahead := untilBoundary stream.ahead }
where
  /-- Drops tokens as long as the first is no `;` and the second opens no
  statement. -/
  untilBoundary : List Token → List Token
    | [] => []
    | token :: rest =>
        if token.kind = .semicolon ∨ (rest.head?.any opensStatement) then token :: rest
        else untilBoundary rest
  /-- The words that always begin a statement. -/
  opensStatement (token : Token) : Bool :=
    token.kind = .letWord || token.kind = .returnWord

theorem skipExpression_remaining_le (stream : TokenStream) :
    stream.skipExpression.remaining ≤ stream.remaining := by
  suffices shorter : ∀ tokens, (skipExpression.untilSemicolon tokens).length ≤ tokens.length from
    shorter stream.ahead
  intro tokens
  fun_induction skipExpression.untilSemicolon tokens with
  | case1 => exact Nat.le_refl _
  | case2 _ _ _ _ inductionHypothesis =>
      exact Nat.le_trans inductionHypothesis (by simp)
  | case3 => exact Nat.le_refl _

theorem synchronize_remaining_le (stream : TokenStream) :
    stream.synchronize.remaining ≤ stream.remaining := by
  suffices shorter : ∀ tokens, (synchronize.untilBoundary tokens).length ≤ tokens.length from
    shorter stream.ahead
  intro tokens
  fun_induction synchronize.untilBoundary tokens with
  | case1 => exact Nat.le_refl _
  | case2 => exact Nat.le_refl _
  | case3 _ _ _ inductionHypothesis =>
      exact Nat.le_trans inductionHypothesis (by simp)

end TokenStream

end PrattSyntax
