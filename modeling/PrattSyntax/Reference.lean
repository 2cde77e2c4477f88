import PrattSyntax.Parser.Rules
import PrattSyntax.Token.Integer

/-!
# Reference tables

The fixed tables of the language, read off the functions that use them and
sorted for listing.
-/

namespace PrattSyntax.Reference

/-- The kinds with a given property, by name. -/
def kindsWith (property : TokenKind → Bool) : List TokenKind :=
  (TokenKind.all.filter property).mergeSort fun first second => first.name ≤ second.name

/-- The kinds that stand between operands, by name, each with its level. -/
def operators : List (TokenKind × Precedence) :=
  (kindsWith fun kind => (Precedence.ofOperator? kind).isSome).map fun kind =>
    (kind, Precedence.ofKind kind)

/-- The reserved words in order. -/
def keywords : List (String × TokenKind) :=
  TokenKind.keywords.mergeSort fun first second => first.1 ≤ second.1

/-- The operators and delimiters of one byte in order. -/
def marks : List (UInt8 × TokenKind) :=
  TokenKind.marks.mergeSort fun first second => first.1 ≤ second.1

/-- The kinds that begin an expression, by name. -/
def openings : List TokenKind := kindsWith fun kind => (Opening.ofKind? kind).isSome

/-- The kinds that continue an expression under given rules, by name. -/
def continuations (rules : Rules) : List TokenKind :=
  kindsWith fun kind => (rules.infixRule kind).isSome

end PrattSyntax.Reference
