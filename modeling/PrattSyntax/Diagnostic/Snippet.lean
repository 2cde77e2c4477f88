import PrattSyntax.Diagnostic.Basic
import PrattSyntax.Text.Line
import PrattSyntax.Text.Slice
import PrattSyntax.Text.Utf8

/-!
# Diagnostics with their source line

A diagnostic about a stretch of text is shown with the line it begins on and a
row of carets below. Spans count bytes and a row counts characters, so both the
blanks and the carets are measured on the bytes of the line. A stretch that ends
on another line is marked up to the end of the first.
-/

namespace PrattSyntax

/-- A source line, how many characters stand before the marked stretch, and how
many carets mark it. -/
structure Snippet where
  line : List Char
  before : Nat
  carets : Nat
deriving DecidableEq, Repr

namespace Snippet

/-- Of the lines of a source, the one with a given number, without its break; a
number that no line has stands for an empty line. -/
def lineOf (lines : List (List Char)) (number : Int) : List Char :=
  if 1 ≤ number then Text.stripBreak ((lines[(number - 1).toNat]?).getD []) else []

/-- How many characters a slice of bytes shows. -/
def width (lower upper : Int) (bytes : List UInt8) : Nat :=
  (Text.decodeLossy (Text.slice lower upper bytes)).length

/-- The snippet of a stretch of a source with the given lines. -/
def ofSpan (lines : List (List Char)) (span : Span) : Snippet :=
  let line := lineOf lines span.start.line
  let bytes := Text.encode (String.ofList line)
  let before := width 0 (span.start.column - 1) bytes
  let marked :=
    if span.stop.line = span.start.line then
      width (span.start.column - 1) (span.stop.column - 1) bytes
    else line.length - before
  ⟨line, before, max 1 marked⟩

end Snippet

namespace Diagnostic

/-- A diagnostic without a place. -/
def renderUnplaced (message filename : String) : String :=
  "error: " ++ message ++ "\n --> " ++ filename

/-- A diagnostic with its snippet. The gutter is as wide as the line number and
one blank. -/
def renderPlaced (message filename : String) (lineNumber : Int) (snippet : Snippet) : String :=
  let number := toString lineNumber
  let gutter := "".pushn ' ' (number.length + 1)
  "error: " ++ message ++ "\n"
    ++ gutter ++ "--> " ++ filename ++ ":" ++ number ++ ":" ++ toString (snippet.before + 1) ++ "\n"
    ++ gutter ++ "|\n"
    ++ number ++ " | " ++ String.ofList snippet.line ++ "\n"
    ++ gutter ++ "| " ++ "".pushn ' ' snippet.before ++ "".pushn '^' snippet.carets

/-- The text of a diagnostic about a source with the given lines and name. -/
def renderOver (lines : List (List Char)) (filename : String) (diagnostic : Diagnostic) :
    String :=
  match diagnostic.span with
  | none => renderUnplaced diagnostic.message filename
  | some span =>
      renderPlaced diagnostic.message filename span.start.line (Snippet.ofSpan lines span)

/-- The texts of diagnostics about a source with a given name. -/
def renderAll (source filename : String) (diagnostics : List Diagnostic) : List String :=
  let lines := Text.lines source.toList
  diagnostics.map (renderOver lines filename)

/-- The text of a diagnostic about a source with a given name. -/
def render (source filename : String) (diagnostic : Diagnostic) : String :=
  diagnostic.renderOver (Text.lines source.toList) filename

end Diagnostic

end PrattSyntax
