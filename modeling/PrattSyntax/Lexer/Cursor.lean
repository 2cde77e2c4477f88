import PrattSyntax.Token.Basic

/-!
# Reading tokens off a text

A cursor holds the bytes that are still to be read and the place of the first of
them. Past the last byte it reads zeros, and its place keeps moving; whether the
text is spent is decided by the bytes that are left, so that a zero inside a
text is a byte like any other.

`Cursor.next?` takes one token, `Cursor.tokens` all of them. Reading never
fails: bytes that begin no token are read as illegal ones.
-/

namespace PrattSyntax

/-- A place in a text together with the bytes from there on. -/
structure Cursor where
  rest : List UInt8
  position : Position
deriving DecidableEq, Repr

namespace Cursor

/-- The cursor before the first byte of a text. -/
def ofBytes (bytes : List UInt8) : Cursor := ⟨bytes, .start⟩

/-! ## Bytes -/

/-- The byte at the cursor, zero when the text is spent. -/
def byte (cursor : Cursor) : UInt8 := cursor.rest.headD 0

/-- The byte after the one at the cursor, zero when there is none. -/
def peekByte (cursor : Cursor) : UInt8 := cursor.rest.tail.headD 0

/-- Whether the text is spent. -/
def atEnd (cursor : Cursor) : Bool := cursor.rest.isEmpty

/-- One byte further, also past the end. -/
def advance (cursor : Cursor) : Cursor :=
  ⟨cursor.rest.tail, cursor.position.step cursor.byte⟩

/-- Past the next `count` bytes, at most to the end. -/
def skip (cursor : Cursor) (count : Nat) : Cursor :=
  ⟨cursor.rest.drop count, cursor.position.after (cursor.rest.take count)⟩

/-- Past the longest run of bytes of a class. -/
def skipWhile (cursor : Cursor) (class? : UInt8 → Bool) : Cursor :=
  ⟨cursor.rest.dropWhile class?, cursor.position.after (cursor.rest.takeWhile class?)⟩

/-- Past the blanks at the cursor. -/
def skipBlanks (cursor : Cursor) : Cursor := cursor.skipWhile Byte.isBlank

/-- Past everything. -/
def finish (cursor : Cursor) : Cursor := ⟨[], cursor.position.after cursor.rest⟩

theorem skipWhile_rest_length_le (cursor : Cursor) (class? : UInt8 → Bool) :
    (cursor.skipWhile class?).rest.length ≤ cursor.rest.length :=
  (List.dropWhile_sublist _).length_le

/-! ## Tokens -/

/-- The next token and the cursor behind it, unless only blanks are left. -/
def next? (cursor : Cursor) : Option (Token × Cursor) :=
  match cursor.skipBlanks.rest with
  | [] => none
  | first :: after =>
      let bytes := lexeme first after
      let behind := cursor.skipBlanks.skip bytes.length
      some (Token.ofLexeme bytes ⟨cursor.skipBlanks.position, behind.position⟩, behind)

/-- The next token and the cursor behind it; once the text is spent, the token
that marks its end. -/
def next (cursor : Cursor) : Token × Cursor :=
  cursor.next?.getD (Token.eof cursor.skipBlanks.position, cursor.skipBlanks)

theorem next?_rest_length_lt {cursor behind : Cursor} {token : Token}
    (taken : cursor.next? = some (token, behind)) :
    behind.rest.length < cursor.rest.length := by
  have blanks := cursor.skipWhile_rest_length_le Byte.isBlank
  unfold next? at taken
  split at taken
  · contradiction
  · next first after restEq =>
      cases taken
      have positive := lexeme_length_pos first after
      have skipped : cursor.skipBlanks.rest.length ≤ cursor.rest.length := blanks
      rw [restEq, List.length_cons] at skipped
      simp only [skip, restEq, List.length_drop, List.length_cons]
      omega

/-- Every token from the cursor on, without the mark of the end. -/
def tokens (cursor : Cursor) : List Token :=
  match _taken : cursor.next? with
  | none => []
  | some (token, behind) => token :: behind.tokens
termination_by cursor.rest.length
decreasing_by exact next?_rest_length_lt _taken

/-- Every token from the cursor on, closed by the mark of the end, and the
cursor behind them. -/
def drain (cursor : Cursor) : List Token × Cursor :=
  (cursor.tokens ++ [Token.eof cursor.finish.position], cursor.finish)

end Cursor

/-- The tokens of a text, the last of them the mark of its end. -/
def tokenize (bytes : List UInt8) : List Token := (Cursor.ofBytes bytes).drain.1

end PrattSyntax
