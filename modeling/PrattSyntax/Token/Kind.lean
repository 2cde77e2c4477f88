/-!
# Token kinds

The kinds of token, in the order in which they are numbered from one, each with
the name that messages use for it.
-/

namespace PrattSyntax

/-- What a token is, apart from its text. -/
inductive TokenKind where
  | illegal
  | eof
  | ident
  | int
  | assign
  | plus
  | minus
  | bang
  | asterisk
  | slash
  | equal
  | bangEqual
  | lessThan
  | greaterThan
  | comma
  | semicolon
  | leftParen
  | rightParen
  | leftBrace
  | rightBrace
  | functionWord
  | letWord
  | returnWord
  | trueWord
  | falseWord
  | ifWord
  | elseWord
deriving DecidableEq, Repr

namespace TokenKind

/-- Every kind, in declaration order. -/
def all : List TokenKind :=
  [.illegal, .eof, .ident, .int, .assign, .plus, .minus, .bang, .asterisk, .slash,
    .equal, .bangEqual, .lessThan, .greaterThan, .comma, .semicolon, .leftParen,
    .rightParen, .leftBrace, .rightBrace, .functionWord, .letWord, .returnWord,
    .trueWord, .falseWord, .ifWord, .elseWord]

/-- The name of a kind in messages and listings. -/
def name : TokenKind → String
  | illegal => "ILLEGAL"
  | eof => "EOF"
  | ident => "IDENT"
  | int => "INT"
  | assign => "ASSIGN"
  | plus => "PLUS"
  | minus => "MINUS"
  | bang => "BANG"
  | asterisk => "ASTERISK"
  | slash => "SLASH"
  | equal => "EQUAL"
  | bangEqual => "BANG_EQUAL"
  | lessThan => "LESS_THAN"
  | greaterThan => "GREATER_THAN"
  | comma => "COMMA"
  | semicolon => "SEMICOLON"
  | leftParen => "LPAREN"
  | rightParen => "RPAREN"
  | leftBrace => "LBRACE"
  | rightBrace => "RBRACE"
  | functionWord => "FUNCTION"
  | letWord => "LET"
  | returnWord => "RETURN"
  | trueWord => "TRUE"
  | falseWord => "FALSE"
  | ifWord => "IF"
  | elseWord => "ELSE"

/-- The number of a kind: its place in the declaration, from one. -/
def number (kind : TokenKind) : Nat :=
  all.idxOf kind + 1

/-- The kind with a given name. -/
def ofName? (text : String) : Option TokenKind :=
  all.find? fun kind => kind.name == text

theorem mem_all (kind : TokenKind) : kind ∈ all := by
  cases kind <;> decide

end TokenKind

end PrattSyntax
