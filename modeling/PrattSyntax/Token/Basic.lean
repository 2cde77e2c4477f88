import PrattSyntax.Position
import PrattSyntax.Token.Spelling

/-!
# Tokens

A token is a kind, the source text that produced it, and its place. Two tokens
are the same up to their place when `Token.unplaced` sends them to one value.
-/

namespace PrattSyntax

/-- One unit of source text. The literal of a token that is illegal or marks the
end is empty; for every other kind it is the text of the token. -/
structure Token where
  kind : TokenKind
  literal : String
  span : Span := Span.origin
deriving DecidableEq, Repr

namespace Token

/-- The token with the given bytes at the given place. -/
def ofLexeme (bytes : List UInt8) (span : Span) : Token :=
  let kind := TokenKind.ofLexeme bytes
  { kind, literal := if kind = .illegal then "" else Byte.text bytes, span }

/-- The token that marks the end of a text. -/
def eof (position : Position) : Token :=
  { kind := .eof, literal := "", span := ⟨position, position⟩ }

/-- A token without its place. -/
def unplaced (token : Token) : Token :=
  { token with span := Span.origin }

end Token

end PrattSyntax
