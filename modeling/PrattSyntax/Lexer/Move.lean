import PrattSyntax.Lexer.Cursor

/-!
# Moves of a lexer

What a caller may ask of a lexer, in any order. A lexer goes along with a cursor and
counts the bytes that it reads, one ahead of the cursor. Each move answers and
leaves a lexer, so a sequence of moves is a fold.
-/

namespace PrattSyntax

/-- A cursor, and the offset of the byte that is read next. -/
structure Lexer where
  cursor : Cursor
  readOffset : Nat
deriving DecidableEq, Repr

namespace Lexer

/-- The lexer at the beginning of a text, whose first byte is read. -/
def ofBytes (bytes : List UInt8) : Lexer := ⟨.ofBytes bytes, 1⟩

/-- One byte more is read, also past the end. -/
def advance (lexer : Lexer) : Lexer := ⟨lexer.cursor.advance, lexer.readOffset + 1⟩

/-- As many bytes more are read as a cursor further on has less before it. -/
def follow (lexer : Lexer) (cursor : Cursor) : Lexer :=
  ⟨cursor, lexer.readOffset + (lexer.cursor.rest.length - cursor.rest.length)⟩

/-- One request to a lexer. -/
inductive Move where
  | nextToken
  | allTokens
  | advance
  | skipBlanks
  | skipLetters
  | skipDigits
  | peekByte
  | askEnd
deriving DecidableEq, Repr

/-- What a move answers. -/
inductive Answer where
  | nothing
  | token (token : Token)
  | tokens (tokens : List Token)
  | byte (byte : UInt8)
  | flag (flag : Bool)
deriving DecidableEq, Repr

/-- The answer to a move and the lexer that it leaves. -/
def perform (lexer : Lexer) : Move → Answer × Lexer
  | .nextToken => (.token lexer.cursor.next.1, lexer.follow lexer.cursor.next.2)
  | .allTokens => (.tokens lexer.cursor.drain.1, lexer.follow lexer.cursor.drain.2)
  | .advance => (.nothing, lexer.advance)
  | .skipBlanks => (.nothing, lexer.follow lexer.cursor.skipBlanks)
  | .skipLetters => (.nothing, lexer.follow (lexer.cursor.skipWhile Byte.isLetter))
  | .skipDigits => (.nothing, lexer.follow (lexer.cursor.skipWhile Byte.isDigit))
  | .peekByte => (.byte lexer.cursor.peekByte, lexer)
  | .askEnd => (.flag lexer.cursor.atEnd, lexer)

/-- The lexer after a sequence of moves. -/
def run (lexer : Lexer) (moves : List Move) : Lexer :=
  moves.foldl (fun current move => (current.perform move).2) lexer

end Lexer

end PrattSyntax
