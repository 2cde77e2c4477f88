import PrattSyntax.Diagnostic.Snippet
import PrattSyntax.Parser.Program

/-!
# Rejections

A strict reader takes a text only if nothing is held against it. Otherwise it
rejects the text and hands out every diagnostic together with the source, so
that they can be shown later and under another name.
-/

namespace PrattSyntax

/-- The diagnostics of a source with a name. -/
structure Rejection where
  diagnostics : List Diagnostic
  source : String
  filename : String
deriving DecidableEq, Repr

namespace Rejection

/-- The name of a source that has none of its own. -/
def defaultFilename : String := "input.mk"

/-- The messages, in order. -/
def messages (rejection : Rejection) : List String :=
  rejection.diagnostics.map Diagnostic.message

/-- Every diagnostic under a given name, a blank line between them. -/
def renderAs (rejection : Rejection) (filename : String) : String :=
  "\n\n".intercalate (Diagnostic.renderAll rejection.source filename rejection.diagnostics)

/-- Every diagnostic under the name of the source. -/
def render (rejection : Rejection) : String := rejection.renderAs rejection.filename

end Rejection

/-- The program of a text that nothing is held against. -/
def parseStrict (source filename : String) : Except Rejection Program :=
  let reading := parse (Text.encode source)
  if reading.faults = [] then .ok reading.program
  else .error ⟨reading.faults.map Fault.diagnostic, source, filename⟩

end PrattSyntax
