import PrattSyntax.Byte
import PrattSyntax.Token.Kind

/-!
# Spellings

Keywords, operators and delimiters have a fixed spelling. The kind of a token is
read off its bytes alone: `TokenKind.ofLexeme` looks at the whole spelling for
words and marks, and at the first byte for names, numbers and everything else.
-/

namespace PrattSyntax

namespace TokenKind

/-- The reserved words. -/
def keywords : List (String × TokenKind) :=
  [("fn", functionWord), ("let", letWord), ("return", returnWord), ("true", trueWord),
    ("false", falseWord), ("if", ifWord), ("else", elseWord)]

/-- The operators and delimiters of one byte that start no longer spelling. -/
def marks : List (UInt8 × TokenKind) :=
  [(0x3b, semicolon), (0x28, leftParen), (0x29, rightParen), (0x2c, comma), (0x2b, plus),
    (0x7b, leftBrace), (0x7d, rightBrace), (0x2d, minus), (0x2a, asterisk), (0x2f, slash),
    (0x3c, lessThan), (0x3e, greaterThan)]

/-- The spellings that begin with `=` or `!`, where the second byte decides. -/
def pairs : List (List UInt8 × TokenKind) :=
  [([Byte.equals], assign), ([Byte.equals, Byte.equals], equal), ([Byte.bang], bang),
    ([Byte.bang, Byte.equals], bangEqual)]

/-- The kind of a word: a keyword if it is reserved, a name otherwise. -/
def ofWord (word : String) : TokenKind :=
  (keywords.lookup word).getD ident

/-- The kind of a token with the given bytes. -/
def ofLexeme (bytes : List UInt8) : TokenKind :=
  match bytes with
  | [] => eof
  | first :: _ =>
      if Byte.isLetter first then ofWord (Byte.text bytes)
      else if Byte.isDigit first then int
      else ((pairs.lookup bytes).or (marks.lookup first)).getD illegal

end TokenKind

/-- The bytes of the token that starts with `first` when `after` follows it: a
run of letters, digits or wide bytes as far as it goes, `==` and `!=` before `=`
and `!`, and any other byte alone. -/
def lexeme (first : UInt8) (after : List UInt8) : List UInt8 :=
  if Byte.isLetter first then first :: after.takeWhile Byte.isLetter
  else if Byte.isDigit first then first :: after.takeWhile Byte.isDigit
  else if Byte.isWide first then first :: after.takeWhile Byte.isWide
  else if (first = Byte.equals ∨ first = Byte.bang) ∧ after.head? = some Byte.equals then
    [first, Byte.equals]
  else [first]

/-- A token takes at least one byte. -/
theorem lexeme_length_pos (first : UInt8) (after : List UInt8) :
    0 < (lexeme first after).length := by
  unfold lexeme
  repeat' split
  all_goals simp

end PrattSyntax
