import PrattSyntax.Fault

/-!
# Diagnostics

A diagnostic is a message about a stretch of source text, or about the text as a
whole. Every fault of a parser is one.
-/

namespace PrattSyntax

/-- A message and what it is about. -/
structure Diagnostic where
  message : String
  span : Option Span
deriving DecidableEq, Repr

/-- A fault as a message about its place. -/
def Fault.diagnostic (fault : Fault) : Diagnostic := ⟨fault.message, some fault.span⟩

end PrattSyntax
